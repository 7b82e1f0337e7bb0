import DavOS.Agent.Gate
import DavOS.Lib.CopyLoop
import DavOS.Lib.Words
import Mathlib.Data.List.GetD

/-!
# The targets of the deterministic planner

Reference: `agent/planner_impl_host.go`.

The planner takes the last word of the input as the target of its action, unless that is a word for
an action. A word of more than 16 bytes is cut, so that the action is about another file than the
one that was named (`long_name_cut`). `acts_on_named_file_iff` says that this is the only way for it
to go wrong.
-/

namespace DavOS.Agent

/-! ## The last word -/

variable {text : List UInt8}

/-- Taking one byte more of a text appends it. -/
theorem take_succ_eq {n : ℕ} (h : n < text.length) :
    text.take (n + 1) = text.take n ++ [text.getD n 0] := by
  rw [List.take_succ_eq_append_getElem h, List.getD_eq_getElem _ _ h]

/-- The first loop drops the blanks at the end. -/
theorem take_lastTokenEnd {n : ℕ} (h : n ≤ text.length) :
    text.take (lastTokenEnd text n) = (text.take n).rdropWhile isPlannerSpace := by
  induction n with
  | zero => simp [lastTokenEnd]
  | succ n ih =>
    rw [lastTokenEnd, take_succ_eq h]
    split
    · next hspace => rw [ih (Nat.le_of_succ_le h), List.rdropWhile_concat_pos _ _ _ hspace]
    · next hspace => rw [take_succ_eq h, List.rdropWhile_concat_neg _ _ _ hspace]

/-- The first loop runs backwards from `n`. -/
theorem lastTokenEnd_le (n : ℕ) : lastTokenEnd text n ≤ n := by
  induction n with
  | zero => exact le_rfl
  | succ n ih =>
    rw [lastTokenEnd]
    split
    · exact Nat.le_succ_of_le ih
    · exact le_rfl

/-- The second loop runs backwards from `n`. -/
theorem lastTokenStart_le (n : ℕ) : lastTokenStart text n ≤ n := by
  induction n with
  | zero => exact le_rfl
  | succ n ih =>
    rw [lastTokenStart]
    split
    · exact le_rfl
    · exact Nat.le_succ_of_le ih

/-- The second loop takes the letters of the last word. -/
theorem drop_lastTokenStart {n : ℕ} (h : n ≤ text.length) :
    (text.take n).drop (lastTokenStart text n) =
      (text.take n).rtakeWhile fun c => !isPlannerSpace c := by
  induction n with
  | zero => simp [lastTokenStart]
  | succ n ih =>
    have hlen : (text.take n).length = n := List.length_take_of_le (Nat.le_of_succ_le h)
    rw [lastTokenStart, take_succ_eq h]
    split
    · next hspace =>
      rw [List.rtakeWhile_concat_neg _ _ _ (by simpa using hspace),
        List.drop_of_length_le (by simp [hlen])]
    · next hspace =>
      rw [List.rtakeWhile_concat_pos _ _ _ (by simpa using hspace),
        List.drop_append_of_le_length (by simp [hlen, lastTokenStart_le]), ih (Nat.le_of_succ_le h)]

/-- The bytes between the positions that `lastToken` finds. -/
def lastTokenText (text : List UInt8) : List UInt8 :=
  (text.take (lastToken text).2).drop (lastToken text).1

/-- The two loops find the last word. -/
theorem lastTokenText_eq (text : List UInt8) :
    lastTokenText text = Words.lastWord isPlannerSpace text := by
  have hend : text.take (lastTokenEnd text text.length) =
      (text.take text.length).rdropWhile isPlannerSpace := take_lastTokenEnd le_rfl
  rw [List.take_length] at hend
  rw [lastTokenText, lastToken, drop_lastTokenStart (lastTokenEnd_le _), hend, Words.lastWord]

/-- The word ends in the text. -/
theorem lastToken_snd_le (text : List UInt8) : (lastToken text).2 ≤ text.length :=
  lastTokenEnd_le _

/-- The length of the word is the distance of its positions. -/
theorem length_lastTokenText (text : List UInt8) :
    (lastTokenText text).length = (lastToken text).2 - (lastToken text).1 := by
  rw [lastTokenText, List.length_drop, List.length_take, min_eq_left (lastToken_snd_le text)]

/-! ## Plans with a target -/

/-- The planner takes the last word of the input as a target. -/
def TakesTarget (input : List UInt8) : Prop :=
  (lastToken input).1 < (lastToken input).2 ∧
    ¬ isActionWord input (lastToken input).1 (lastToken input).2

/-- A target is not empty. -/
theorem TakesTarget.pos {input : List UInt8} (h : TakesTarget input) :
    0 < (lastTokenText input).length := by
  rw [length_lastTokenText]
  exact Nat.sub_pos_of_lt h.1

/-- The action of `singleTargetPlan`. -/
structure IsTargetAction (kind : ActionKind) (risk : RiskLevel) (input : List UInt8)
    (action : Action) : Prop where
  kind_eq : action.kind = kind
  risk_eq : action.risk = risk
  dataLen_eq : action.dataLen = 0
  taken : TakesTarget input → action.targetLen = min (lastTokenText input).length 16 ∧
    action.target.toList.take action.targetLen.toNat = (lastTokenText input).take 16
  untaken : ¬ TakesTarget input → action.targetLen = 0

/-- `singleTargetPlan` has one action, which is about the last word if that is a target. -/
theorem singleTargetPlan_action (intent : IntentKind) (kind : ActionKind) (risk : RiskLevel)
    (input : List UInt8) :
    let plan := singleTargetPlan .deterministic intent kind risk input
    plan.planner = .deterministic ∧ plan.actionCount = 1 ∧
      IsTargetAction kind risk input plan.actions[0]! := by
  intro plan
  by_cases htakes : TakesTarget input
  swap
  · have hplan : plan = singleActionPlan .deterministic intent kind risk := if_neg htakes
    rw [hplan]
    exact ⟨rfl, rfl, rfl, rfl, rfl, fun h => absurd h htakes, fun _ => rfl⟩
  have hlen := length_lastTokenText input
  have hle := lastToken_snd_le input
  set n := min ((lastToken input).2 - (lastToken input).1) maxNameLen with hn
  have hplan : plan = { singleActionPlan .deterministic intent kind risk with
      actions := (singleActionPlan .deterministic intent kind risk).actions.set! 0
        { (default : Action) with
          kind
          risk
          targetLen := n
          target := (List.range n).foldl
            (fun b i => b.set! i (input.getD ((lastToken input).1 + i) 0)) default } } :=
    if_pos htakes
  rw [hplan]
  refine ⟨rfl, rfl, rfl, rfl, rfl, fun _ => ⟨?_, ?_⟩, fun h => absurd htakes h⟩
  · change (n : ℤ) = _
    rw [hn, hlen]
  · change ((List.range n).foldl (fun (b : Name) i =>
      b.set! i (input.getD ((lastToken input).1 + i) 0)) default).toList.take n = _
    have hcopy : (List.range n).map (fun i => input.getD ((lastToken input).1 + i) 0) =
        (input.drop (lastToken input).1).take n := by
      rw [← CopyLoop.map_range_getD _ 0 (by rw [List.length_drop]; omega)]
      simp only [List.getD_eq_getElem?_getD, List.getElem?_drop]
    have hmin : min 16 ((lastToken input).2 - (lastToken input).1) = n := min_comm _ _
    rw [CopyLoop.toList_foldl_set! _ (min_le_right _ _),
      List.take_left' (by rw [List.length_map, List.length_range]), hcopy, lastTokenText,
      List.drop_take, List.take_take, hmin]

/-- The words of the input select an action that has a target. -/
def selectsTarget (input : List UInt8) : Bool :=
  let has := fun token => contains input (ascii token)
  !(has "help" || has "commands" || has "what can you do") &&
    !(has "memorymap" || has "memory" && has "map") && !has "version" && !has "ticks" &&
    !has "history" &&
    (has "mode" || (has "delete" || has "remove") || (has "read" || has "cat") ||
      (has "stat" || has "status") ||
      !(has "ls" || has "list" || has "files" || has "file") && has "show")

/-- What `deterministicPlan` makes of an input: a plan of one action, which is about the last word
if the words of the input select an action with a target, and has no target otherwise. -/
structure IsPlan (input : List UInt8) (result : PlanningResult) : Prop where
  ok_eq : result.ok = true
  planner_eq : result.plan.planner = .deterministic
  actionCount_eq : result.plan.actionCount = 1
  action : (selectsTarget input = true ∧ ∃ kind risk, (risk = .risky ↔ kind = .deleteFile) ∧
      kind ≠ .writeFile ∧ IsTargetAction kind risk input result.plan.actions[0]!) ∨
    (result.plan.actions[0]!.targetLen = 0 ∧ ¬ (selectsTarget input = true ∧ TakesTarget input))

section Branches

variable {input : List UInt8}

/-- A branch that plans an action with a target makes a plan of the input. -/
theorem isPlan_target (hselects : selectsTarget input = true) (intent : IntentKind)
    {kind : ActionKind} {risk : RiskLevel} (hrisk : risk = .risky ↔ kind = .deleteFile)
    (hkind : kind ≠ .writeFile) :
    IsPlan input (successfulPlan (singleTargetPlan .deterministic intent kind risk input)) := by
  obtain ⟨hplanner, hcount, haction⟩ := singleTargetPlan_action intent kind risk input
  exact ⟨rfl, hplanner, hcount, .inl ⟨hselects, kind, risk, hrisk, hkind, haction⟩⟩

/-- So does a branch that plans an action without one. -/
theorem isPlan_noTarget (h : ¬ (selectsTarget input = true ∧ TakesTarget input))
    (intent : IntentKind) (kind : ActionKind) :
    IsPlan input (successfulPlan (singleActionPlan .deterministic intent kind .safe)) :=
  ⟨rfl, rfl, rfl, .inr ⟨rfl, h⟩⟩

/-- The branches of `deterministicPlan`, one after the other. -/
theorem isPlan_deterministicPlan (input : List UInt8) : IsPlan input (deterministicPlan input) := by
  have hselects := selectsTarget.eq_1 input
  rw [deterministicPlan]
  dsimp only at hselects ⊢
  beta_reduce
  generalize (contains input (ascii "help") || contains input (ascii "commands") ||
    contains input (ascii "what can you do")) = help at hselects ⊢
  generalize (contains input (ascii "memorymap") || contains input (ascii "memory") &&
    contains input (ascii "map")) = memory at hselects ⊢
  generalize contains input (ascii "version") = version at hselects ⊢
  generalize contains input (ascii "ticks") = ticks at hselects ⊢
  generalize contains input (ascii "history") = history at hselects ⊢
  generalize contains input (ascii "mode") = mode at hselects ⊢
  generalize (contains input (ascii "delete") || contains input (ascii "remove")) = delete
    at hselects ⊢
  generalize (contains input (ascii "read") || contains input (ascii "cat")) = read at hselects ⊢
  generalize (contains input (ascii "stat") || contains input (ascii "status")) = stat
    at hselects ⊢
  generalize (contains input (ascii "ls") || contains input (ascii "list") ||
    contains input (ascii "files") || contains input (ascii "file")) = list at hselects ⊢
  generalize contains input (ascii "show") = named at hselects ⊢
  have hnone : selectsTarget input = false → ¬ (selectsTarget input = true ∧ TakesTarget input) :=
    fun hfalse h => absurd (h.1.symm.trans hfalse) (by decide)
  cases help
  swap
  · exact isPlan_noTarget (hnone hselects) .showHelp .showHelp
  cases memory
  swap
  · exact isPlan_noTarget (hnone hselects) .showMemoryMap .showMemoryMap
  cases version
  swap
  · exact isPlan_noTarget (hnone hselects) .showVersion .showVersion
  cases ticks
  swap
  · exact isPlan_noTarget (hnone hselects) .showTicks .showTicks
  cases history
  swap
  · exact isPlan_noTarget (hnone hselects) .showHistory .showHistory
  cases mode
  swap
  · exact isPlan_target hselects .setMode (by decide) (by decide)
  cases delete
  swap
  · exact isPlan_target hselects .deleteFile (by decide) (by decide)
  cases read
  swap
  · exact isPlan_target hselects .readFile (by decide) (by decide)
  cases stat
  swap
  · exact isPlan_target hselects .statFile (by decide) (by decide)
  cases list
  swap
  · exact isPlan_noTarget (hnone hselects) .listFiles .listFiles
  cases named
  · exact isPlan_noTarget (hnone hselects) .unknown .unknown
  -- the word `show` alone is not enough
  simp only [Bool.false_eq_true, if_false]
  obtain ⟨-, -, haction⟩ := singleTargetPlan_action .readFile .readFile .safe input
  by_cases htakes : TakesTarget input
  · have hlen := (haction.taken htakes).1
    have hpos := htakes.pos
    rw [if_pos ⟨trivial, by omega⟩]
    exact isPlan_target hselects .readFile (by decide) (by decide)
  · have hlen := haction.untaken htakes
    rw [if_neg fun h => absurd h.2 (by omega)]
    exact isPlan_noTarget (fun h => htakes h.2) .unknown .unknown

end Branches

/-! ## What the user has named -/

/-- The last word of the input is the target of the action, byte by byte, only deletions are risky,
and nothing is written. A deletion that is then confirmed is about that word. -/
def ActsOnNamedFile (input : List UInt8) : Prop :=
  let action := (deterministicPlan input).plan.actions[0]!
  action.targetLen > 0 →
    (Words.words isPlannerSpace input).getLast? =
        some (action.target.toList.take action.targetLen.toNat) ∧
      (action.risk = .risky ↔ action.kind = .deleteFile) ∧ action.kind ≠ .writeFile ∧
      (action.kind = .deleteFile → ∀ (σ : Type) (r : Runtime σ) (configured : Option (Planner σ))
        (s : Store σ), r.plannerMode ≠ .llm → r.executorConfigured = true →
        r.executor.deleteFile ≠ none → s.context ≠ none →
        (r.run configured input s).2.calls = s.calls ∧
          ∃ deletion, (r.confirmAction true (r.run configured input s).2).2.calls =
              s.calls ++ [deletion] ∧ deletion.kind = .deleteFile ∧
            (Words.words isPlannerSpace input).getLast? =
              some (deletion.target.toList.take deletion.targetLen.toNat))

/-- A deletion that the planner plans is executed when it is confirmed. -/
theorem run_then_confirm {σ : Type} {r : Runtime σ} (configured : Option (Planner σ))
    {input : List UInt8} {s : Store σ} (hmode : r.plannerMode ≠ .llm)
    (hconfigured : r.executorConfigured = true) (hhandler : r.executor.deleteFile ≠ none)
    (hcontext : s.context ≠ none) {action : Action}
    (hcounted : (deterministicPlan input).plan.counted = [action])
    (hkind : action.kind = .deleteFile) (hrisk : action.risk = .risky)
    (hvalid : (validatePlan (deterministicPlan input).plan).ok = true) :
    (r.run configured input s).2.calls = s.calls ∧
      (r.confirmAction true (r.run configured input s).2).2.calls = s.calls ++ [action] := by
  set s₀ := s.onContext fun c => c.beginStringRequest input r.plannerMode with hs₀
  have hrun : r.run configured input s = r.runPlan (deterministicPlan input).plan s₀ := by
    have hok := (isPlan_deterministicPlan input).ok_eq
    rw [Runtime.run, Runtime.planInput.eq_def, if_neg hmode]
    dsimp only
    rw [if_neg (not_not.mpr hok)]
  obtain ⟨-, -, -, hcalls, -, hpending⟩ := runPlan_risky (r := r) hcounted hrisk hvalid s₀
  have hpending : (r.runPlan (deterministicPlan input).plan s₀).2.pending =
      some (true, (deterministicPlan input).plan) := by
    obtain ⟨c, hc⟩ := Option.ne_none_iff_exists'.mp hcontext
    rw [hpending, hs₀, Store.pending, Store.onContext, hc]
    rfl
  rw [hrun]
  refine ⟨hcalls, ?_⟩
  rw [(confirmAction_executes hconfigured hcounted hvalid (by rw [hkind]; exact hhandler)
    hpending).2, hcalls]
  rfl

/-- The last word of the input, if there is one. -/
theorem getLast?_words_eq (input : List UInt8) :
    (Words.words isPlannerSpace input).getLast? =
      if lastTokenText input = [] then none else some (lastTokenText input) := by
  rw [Words.getLast?_words, lastTokenText_eq]

/-- A target is the last word. -/
theorem TakesTarget.getLast? {input : List UInt8} (h : TakesTarget input) :
    (Words.words isPlannerSpace input).getLast? = some (lastTokenText input) := by
  rw [getLast?_words_eq, if_neg (List.length_pos_iff.mp h.pos)]

/-- The last word is a target unless it names an action. -/
theorem takesTarget_of_getLast? {input word : List UInt8}
    (hlast : (Words.words isPlannerSpace input).getLast? = some word)
    (hword : isActionWord input (lastToken input).1 (lastToken input).2 = false) :
    TakesTarget input := by
  have hne : lastTokenText input ≠ [] := by
    rw [getLast?_words_eq] at hlast
    intro hnil
    rw [if_pos hnil] at hlast
    exact absurd hlast nofun
  have hpos := List.length_pos_iff.mpr hne
  rw [length_lastTokenText] at hpos
  exact ⟨by omega, by rw [hword]; decide⟩

/-- A word that is the target has not been cut. -/
theorem ActsOnNamedFile.length_le {input word : List UInt8} (hacts : ActsOnNamedFile input)
    (hselects : selectsTarget input = true) (htakes : TakesTarget input)
    (hlast : (Words.words isPlannerSpace input).getLast? = some word) : word.length ≤ 16 := by
  obtain ⟨-, kind, risk, -, -, haction⟩ | ⟨-, hnone⟩ := (isPlan_deterministicPlan input).action
  swap
  · exact absurd ⟨hselects, htakes⟩ hnone
  obtain ⟨hlen, htarget⟩ := haction.taken htakes
  have hpos := htakes.pos
  have hnamed := (hacts (by omega)).1
  rw [htarget, hlast, Option.some_inj] at hnamed
  rw [hnamed, List.length_take]
  exact min_le_left _ _

/-- If the last word fits into a name, it is the target as a whole. -/
theorem actsOnNamedFile_of_length_le {input : List UInt8}
    (hshort : selectsTarget input = true → TakesTarget input →
      (lastTokenText input).length ≤ 16) : ActsOnNamedFile input := by
  obtain ⟨-, -, hcount, haction⟩ := isPlan_deterministicPlan input
  dsimp only [ActsOnNamedFile]
  intro hpos
  obtain ⟨hselects, kind, risk, hrisk, hwrite, haction⟩ | ⟨hzero, -⟩ := haction
  swap
  · omega
  have htakes : TakesTarget input := by
    by_contra hnot
    have hzero := haction.untaken hnot
    omega
  obtain ⟨hlen, htarget⟩ := haction.taken htakes
  have hnamed : (Words.words isPlannerSpace input).getLast? =
      some ((deterministicPlan input).plan.actions[0]!.target.toList.take
        (deterministicPlan input).plan.actions[0]!.targetLen.toNat) := by
    rw [htarget, List.take_of_length_le (hshort hselects htakes), htakes.getLast?]
  rw [haction.risk_eq, haction.kind_eq]
  refine ⟨hnamed, hrisk, hwrite, ?_⟩
  intro hdelete σ r configured s hmode hconfigured hhandler hcontext
  have hkind := haction.kind_eq.trans hdelete
  have hrisky := haction.risk_eq.trans (hrisk.mpr hdelete)
  obtain ⟨hcalls, hconfirmed⟩ := run_then_confirm configured hmode hconfigured hhandler
    hcontext (counted_eq_singleton hcount) hkind hrisky
    (validatePlan_deletion hcount hkind hrisky haction.dataLen_eq hpos (by omega))
  exact ⟨hcalls, _, hconfirmed, hkind, hnamed⟩

/-- **When the planner acts on the file that was named.** It does, for exactly the inputs whose last
word has at most 16 bytes, is no word for an action, or goes with words that select an action
without a target. -/
theorem acts_on_named_file_iff (input : List UInt8) :
    ActsOnNamedFile input ↔
      (selectsTarget input = true →
        isActionWord input (lastToken input).1 (lastToken input).2 = false →
        ∀ word, (Words.words isPlannerSpace input).getLast? = some word → word.length ≤ 16) := by
  constructor
  · intro hacts hselects hword word hlast
    exact hacts.length_le hselects (takesTarget_of_getLast? hlast hword) hlast
  · intro hcond
    refine actsOnNamedFile_of_length_le fun hselects htakes => ?_
    exact hcond hselects (Bool.not_eq_true _ ▸ htakes.2) _ htakes.getLast?

/-- A name of 17 bytes is cut to the name of another file. -/
theorem long_name_cut :
    let input := ascii "delete 0123456789abcdefg"
    let action := (deterministicPlan input).plan.actions[0]!
    action.kind = .deleteFile ∧ action.targetLen = 16 ∧
      action.target.toList.take 16 = ascii "0123456789abcdef" ∧
      (Words.words isPlannerSpace input).getLast? = some (ascii "0123456789abcdefg") ∧
      ¬ ActsOnNamedFile input := by
  intro input action
  have haction : action.kind = .deleteFile ∧ action.targetLen = 16 ∧
      action.target.toList.take 16 = ascii "0123456789abcdef" := by decide +kernel
  have hlast : (Words.words isPlannerSpace input).getLast? = some (ascii "0123456789abcdefg") := by
    decide +kernel
  refine ⟨haction.1, haction.2.1, haction.2.2, hlast, ?_⟩
  intro hacts
  have hnamed : (Words.words isPlannerSpace input).getLast? =
      some (action.target.toList.take action.targetLen.toNat) :=
    (hacts (show action.targetLen > 0 by rw [haction.2.1]; decide)).1
  rw [hlast, haction.2.1, show (16 : ℤ).toNat = 16 from rfl, haction.2.2] at hnamed
  exact absurd hnamed (by decide)

end DavOS.Agent
