import DavOS.Bridge.Plan
import DavOS.Lib.Words
import Mathlib.Data.List.Infix

/-!
# The plans of the fake provider

Reference: `plan_for_request` of `scripts/fake_llm_bridge.py`, and `validate_provider_plan` of
`scripts/agent_bridge_planner.py`.

The provider looks for keywords in the input, and takes its last word as the target of an action
that has one. The target is lower-cased and cut to 16 characters, and the explanation names the
whole word; the check of the plan counts bytes. `fake_provider_conforms_iff` says for which last
words the plan passes the check and is about a word of the input.
-/

namespace DavOS.Bridge.FakeProvider

open JsonText

abbrev maxArgLen : ℕ := 16

def rawExecutionFields : List Text :=
  ["command", "shell", "argv", "script", "exec"].map ofString

mutual

def containsRawExecutionField : Value → Bool
  | .obj fields => rawFieldIn fields
  | .arr items => rawFieldInItems items
  | _ => false

def rawFieldIn : List (Text × Value) → Bool
  | [] => false
  | (key, nested) :: rest =>
    key ∈ rawExecutionFields || containsRawExecutionField nested || rawFieldIn rest

def rawFieldInItems : List Value → Bool
  | [] => false
  | nested :: rest => containsRawExecutionField nested || rawFieldInItems rest

end

/-! ## Words -/

/-- The characters at which `str.split` splits. -/
def isSpace (c : CodePoint) : Bool :=
  let n := c.val
  0x09 ≤ n ∧ n ≤ 0x0D ∨ 0x1C ≤ n ∧ n ≤ 0x20 ∨ n = 0x85 ∨ n = 0xA0 ∨ n = 0x1680 ∨
    0x2000 ≤ n ∧ n ≤ 0x200A ∨ n = 0x2028 ∨ n = 0x2029 ∨ n = 0x202F ∨ n = 0x205F ∨ n = 0x3000

def lowerChar (c : CodePoint) : CodePoint :=
  if 0x41 ≤ c.val ∧ c.val ≤ 0x5A then codePoint (c.val + 32) else c

def lowerAscii (text : Text) : Text := text.map lowerChar

/-- `token in text` -/
def contains (text : Text) (token : String) : Bool := ofString token <:+: text

def actionWords : List Text :=
  ["read", "cat", "delete", "remove", "stat", "status", "show"].map ofString

def lastToken (text : Text) : Text :=
  match (Words.words isSpace text).getLast? with
  | none => []
  | some token => if token ∈ actionWords then [] else token

/-! ## Mappings -/

/-- What `map_input` returns. -/
structure Mapping where
  intent : Text
  action : Text
  args : List Text
  risk : Text
  explanation : Text

/-- An action without a target. -/
def plain (action explanation : String) : Mapping where
  intent := ofString action
  action := ofString action
  args := []
  risk := ofString "safe"
  explanation := ofString explanation

/-- An action with a target, and the verb of its explanation. -/
structure Phrase where
  action : String
  risk : String
  verb : String
deriving DecidableEq

def Phrase.mapping (phrase : Phrase) (target : Text) : Mapping where
  intent := ofString phrase.action
  action := ofString phrase.action
  args := [target]
  risk := ofString phrase.risk
  explanation :=
    ofString "Matched " ++ ofString phrase.verb ++ ofString " request for file " ++ target ++
      ofString "."

def deletePhrase : Phrase := ⟨"delete_file", "risky", "delete"⟩
def readPhrase : Phrase := ⟨"read_file", "safe", "read"⟩
def statPhrase : Phrase := ⟨"stat_file", "safe", "stat"⟩
def showPhrase : Phrase := ⟨"read_file", "safe", "show"⟩

def mapInput (inputText : Text) : Mapping :=
  let text := lowerAscii inputText
  let target := lastToken text
  if contains text "memorymap" || (contains text "memory" && contains text "map") then
    plain "show_memory_map" "Matched request to show the memory map."
  else if contains text "version" then
    plain "show_version" "Matched request to show the OS version."
  else if contains text "ticks" then plain "show_ticks" "Matched request to show PIT ticks."
  else if contains text "history" then
    plain "show_history" "Matched request to show Agent history."
  else if contains text "files" || contains text "file list" || contains text "list files" ||
      contains text "ls" then
    plain "list_files" "Matched request to list files."
  -- without a target, the search for keywords goes on
  else if (contains text "delete" || contains text "remove") && target ≠ [] then
    deletePhrase.mapping target
  else if (contains text "read" || contains text "cat") && target ≠ [] then
    readPhrase.mapping target
  else if (contains text "stat" || contains text "status") && target ≠ [] then
    statPhrase.mapping target
  else if contains text "show" && target ≠ [] && target ≠ ofString "show" then
    showPhrase.mapping target
  else plain "unknown" "No supported fake bridge mapping matched the request."

/-! ## Responses -/

def response (m : Mapping) : Value :=
  .obj (planFields m.intent m.action (m.args.map (·.take maxArgLen)) m.risk m.explanation)

def unknownResponse (explanation : String) : Value := response (plain "unknown" explanation)

/-- The strings of a list. -/
def strings (items : List Value) : List Text :=
  items.filterMap fun
    | .str s => some s
    | _ => none

/-- `plan_for_request`, for the fields of a request. -/
def planForRequest (request : List (Text × Value)) : Value :=
  if containsRawExecutionField (.obj request) then
    unknownResponse "Request contains raw execution fields."
  else
    match (request.lookup (ofString "input")).getD (.str []) with
    | .str inputText =>
      match (request.lookup (ofString "allowedActions")).getD (.arr []) with
      | .arr allowed =>
        let m := mapInput inputText
        if m.action = ofString "unknown" ∨ m.action ∉ strings allowed then
          unknownResponse "No allowed action matched the request."
        else response m
      | _ => unknownResponse "allowedActions must be a list."
    | _ => unknownResponse "Request input must be a string."

/-! ## Requests -/

/-- A request with a list of known actions and a text. -/
structure PlanningRequest where
  fields : List (Text × Value)
  allowed : List Text
  input : Text
  allowed_eq : fields.lookup (ofString "allowedActions") = some (.arr (allowed.map .str))
  known : ∀ action ∈ allowed, (actionContracts.lookup action).isSome
  input_eq : fields.lookup (ofString "input") = some (.str input)
  encodable : (utf8 input).isSome

namespace PlanningRequest

variable (r : PlanningRequest)

/-- The words of the input. -/
def tokens : List Text := Words.words isSpace r.input

/-- The provider keeps the contract of the bridge: its response passes the check, the action is
unknown or allowed, and a target is a word of the input. -/
def Conforms : Prop :=
  ∃ plan d, validateProviderPlan (.obj r.fields) (planForRequest r.fields) = .ok plan ∧
    readDraft (planForRequest r.fields) = .ok d ∧
    (d.action = ofString "unknown" ∨ d.action ∈ r.allowed) ∧ ∀ target ∈ d.args, target ∈ r.tokens

end PlanningRequest

/-- The keywords of an action without a target. -/
def selectsPlain (text : Text) : Bool :=
  contains text "memorymap" || (contains text "memory" && contains text "map") ||
    contains text "version" || contains text "ticks" || contains text "history" ||
    contains text "files" || contains text "file list" || contains text "list files" ||
    contains text "ls"

/-- The keywords of an action with a target. -/
def targetPhrase (text : Text) : Option Phrase :=
  if contains text "delete" || contains text "remove" then some deletePhrase
  else if contains text "read" || contains text "cat" then some readPhrase
  else if contains text "stat" || contains text "status" then some statPhrase
  else if contains text "show" then some showPhrase
  else none

namespace PlanningRequest

variable (r : PlanningRequest)

/-- The request asks for an allowed action with a target. -/
@[mk_iff]
structure Asks (phrase : Phrase) (word : Text) : Prop where
  raw_eq : containsRawExecutionField (.obj r.fields) = false
  plain_eq : selectsPlain (lowerAscii r.input) = false
  phrase_eq : targetPhrase (lowerAscii r.input) = some phrase
  mem_allowed : ofString phrase.action ∈ r.allowed
  word_eq : r.tokens.getLast? = some word
  not_mem_actionWords : lowerAscii word ∉ actionWords

instance (phrase : Phrase) (word : Text) : Decidable (r.Asks phrase word) :=
  decidable_of_iff _ (asks_iff r phrase word).symm

/-- A last word that survives as a target: what is left of it is a word of the input and has at most
16 bytes, and the explanation that names it has at most 256. -/
structure Fits (phrase : Phrase) (word : Text) : Prop where
  token : lowerAscii (word.take maxArgLen) ∈ r.tokens
  target : utf8Within maxTargetBytes (word.take maxArgLen)
  explanation : utf8Within (maxExplanationBytes - (phrase.verb.length + 27)) word

end PlanningRequest

/-! ## Lower case -/

/-- A capital letter becomes the small one. -/
theorem val_lowerChar {c : CodePoint} (h : 0x41 ≤ c.val ∧ c.val ≤ 0x5A) :
    (lowerChar c).val = c.val + 32 := by
  rw [lowerChar, if_pos h]
  exact Nat.mod_eq_of_lt (by omega)

/-- Lowering makes no blank and removes none. -/
theorem isSpace_lowerChar (c : CodePoint) : isSpace (lowerChar c) = isSpace c := by
  by_cases h : 0x41 ≤ c.val ∧ c.val ≤ 0x5A
  · simp only [isSpace, val_lowerChar h, decide_eq_decide]
    omega
  · rw [lowerChar, if_neg h]

/-- So the words of the lowered text are the lowered words. -/
theorem words_lowerAscii (text : Text) :
    Words.words isSpace (lowerAscii text) = (Words.words isSpace text).map lowerAscii :=
  Words.words_map isSpace_lowerChar text

/-- The last token of the lowered input is the lowered last word, unless that names an action. -/
theorem lastToken_lowerAscii {text word : Text}
    (h : (Words.words isSpace text).getLast? = some word) (hword : lowerAscii word ∉ actionWords) :
    lastToken (lowerAscii text) = lowerAscii word := by
  rw [lastToken, words_lowerAscii, List.getLast?_map, h]
  exact if_neg hword

/-- A target comes from a last word. -/
theorem exists_word_of_lastToken {text : Text} (h : lastToken (lowerAscii text) ≠ []) :
    ∃ word, (Words.words isSpace text).getLast? = some word ∧ lowerAscii word ∉ actionWords := by
  rw [lastToken, words_lowerAscii, List.getLast?_map] at h
  cases hword : (Words.words isSpace text).getLast? with
  | none =>
    rw [hword] at h
    exact absurd rfl h
  | some word =>
    refine ⟨word, rfl, fun hmem => h ?_⟩
    rw [hword]
    exact if_pos hmem

/-- A lowered character has as many bytes. -/
theorem utf8Char_lowerChar {c : CodePoint} {bytes : List UInt8} (h : utf8Char c = some bytes) :
    ∃ bytes', utf8Char (lowerChar c) = some bytes' ∧ bytes'.length = bytes.length := by
  by_cases hupper : 0x41 ≤ c.val ∧ c.val ≤ 0x5A
  · have hc : c.val < 0x80 := by omega
    have hlower : (lowerChar c).val < 0x80 := by
      rw [val_lowerChar hupper]
      omega
    simp only [utf8Char, if_pos hc, Option.some.injEq] at h
    refine ⟨[.ofNat (lowerChar c).val], ?_, ?_⟩
    · simp only [utf8Char, if_pos hlower]
    · rw [← h, List.length_singleton, List.length_singleton]
  · rw [lowerChar, if_neg hupper]
    exact ⟨bytes, h, rfl⟩

/-- A lowered text has as many bytes. -/
theorem utf8_lowerAscii {text : Text} {bytes : List UInt8} (h : utf8 text = some bytes) :
    ∃ bytes', utf8 (lowerAscii text) = some bytes' ∧ bytes'.length = bytes.length := by
  induction text generalizing bytes with
  | nil => exact ⟨bytes, h, rfl⟩
  | cons c rest ih =>
    simp only [utf8, Option.bind_eq_bind, Option.bind_eq_some_iff, Option.some.injEq] at h
    obtain ⟨first, hfirst, others, hothers, rfl⟩ := h
    obtain ⟨first', hfirst', hlength⟩ := utf8Char_lowerChar hfirst
    obtain ⟨others', hothers', hlength'⟩ := ih hothers
    refine ⟨first' ++ others', ?_, ?_⟩
    · simp only [lowerAscii] at hothers'
      simp only [lowerAscii, List.map_cons, utf8, hfirst', hothers', Option.bind_eq_bind,
        Option.bind_some]
    · rw [List.length_append, List.length_append, hlength, hlength']

/-- Lower case keeps the length. -/
theorem utf8Within_lowerAscii {text : Text} (h : (utf8 text).isSome) (n : ℕ) :
    utf8Within n (lowerAscii text) = utf8Within n text := by
  obtain ⟨bytes, hbytes⟩ := Option.isSome_iff_exists.mp h
  obtain ⟨bytes', hbytes', hlength⟩ := utf8_lowerAscii hbytes
  simp only [utf8Within, hbytes, hbytes', hlength]

/-! ## The mapping -/

/-- No target is the word "show". -/
theorem lastToken_ne_show (text : Text) : lastToken text ≠ ofString "show" := by
  rw [lastToken]
  cases (Words.words isSpace text).getLast? with
  | none => exact fun h => by cases h
  | some token =>
    dsimp only
    split
    · exact fun h => by cases h
    · next hnot =>
      rintro rfl
      exact hnot (by decide)

/-- The mapping of an input without the keywords of `selectsPlain`. -/
def mapTarget (text : Text) : Mapping :=
  match targetPhrase text with
  | some phrase =>
    if lastToken text = [] then
      plain "unknown" "No supported fake bridge mapping matched the request."
    else phrase.mapping (lastToken text)
  | none => plain "unknown" "No supported fake bridge mapping matched the request."

/-- Without a keyword of a plain action, the action is one with a target or unknown. -/
theorem mapInput_of_not_selectsPlain {input : Text}
    (h : selectsPlain (lowerAscii input) = false) :
    mapInput input = mapTarget (lowerAscii input) := by
  rw [mapInput, mapTarget, targetPhrase]
  have hshow := lastToken_ne_show (lowerAscii input)
  revert h hshow
  generalize lowerAscii input = text
  intro h hshow
  simp only [selectsPlain, Bool.or_eq_false_iff, Bool.and_eq_false_iff] at h
  obtain ⟨⟨⟨⟨⟨⟨⟨⟨hmemorymap, hmemory⟩, hversion⟩, hticks⟩, hhistory⟩, hfiles⟩, hfileList⟩,
    hlistFiles⟩, hls⟩ := h
  have hmap : (contains text "memory" && contains text "map") = false :=
    Bool.and_eq_false_iff.mpr hmemory
  simp only [hmemorymap, hmap, hversion, hticks, hhistory, hfiles, hfileList, hlistFiles, hls,
    Bool.or_self, Bool.false_eq_true, if_false]
  by_cases htarget : lastToken text = []
  · simp only [htarget, ne_eq, not_true, decide_false, Bool.and_false, Bool.false_and,
      Bool.false_eq_true, if_false, if_true]
    split <;> rfl
  · simp only [htarget, hshow, ne_eq, not_false_eq_true, decide_true, Bool.and_true, if_false]
    split_ifs <;> rfl

/-- An action without a target keeps its contract. -/
structure IsPlain (action explanation : String) : Prop where
  row : actionContracts.lookup (ofString action) = some ⟨ofString action, ofString "safe", 0⟩
  short : utf8Within maxExplanationBytes (ofString explanation)

/-- With one, it is a plain action. -/
theorem mapInput_of_selectsPlain {input : Text} (h : selectsPlain (lowerAscii input) = true) :
    ∃ action explanation, mapInput input = plain action explanation ∧
      IsPlain action explanation := by
  rw [mapInput]
  revert h
  generalize lowerAscii input = text
  intro h
  by_cases hmap : (contains text "memorymap" ||
      (contains text "memory" && contains text "map")) = true
  · rw [if_pos hmap]
    exact ⟨_, _, rfl, by decide +kernel, by decide +kernel⟩
  by_cases hversion : contains text "version" = true
  · rw [if_neg hmap, if_pos hversion]
    exact ⟨_, _, rfl, by decide +kernel, by decide +kernel⟩
  by_cases hticks : contains text "ticks" = true
  · rw [if_neg hmap, if_neg hversion, if_pos hticks]
    exact ⟨_, _, rfl, by decide +kernel, by decide +kernel⟩
  by_cases hhistory : contains text "history" = true
  · rw [if_neg hmap, if_neg hversion, if_neg hticks, if_pos hhistory]
    exact ⟨_, _, rfl, by decide +kernel, by decide +kernel⟩
  -- the files are all that is left
  rw [Bool.not_eq_true] at hmap hversion hticks hhistory
  simp only [selectsPlain, hmap, hversion, hticks, hhistory, Bool.or_false, Bool.false_or] at h
  simp only [hmap, hversion, hticks, hhistory, h, Bool.false_eq_true, if_false, if_true]
  exact ⟨_, _, rfl, by decide +kernel, by decide +kernel⟩

/-- An action with a target keeps its contract, too. -/
theorem row_of_targetPhrase {text : Text} {phrase : Phrase} (h : targetPhrase text = some phrase) :
    actionContracts.lookup (ofString phrase.action) =
      some ⟨ofString phrase.action, ofString phrase.risk, 1⟩ := by
  rw [targetPhrase] at h
  split_ifs at h <;> cases h <;> rfl

/-! ## The check of a response -/

namespace PlanningRequest

variable {r : PlanningRequest}

/-- The allowed actions are read back from the request. -/
theorem allowedActions_eq : allowedActions (.obj r.fields) = .ok r.allowed := by
  have hknown : r.allowed.all (fun action => (actionContracts.lookup action).isSome) = true :=
    List.all_eq_true.mpr r.known
  simp only [allowedActions, r.allowed_eq, texts_map_str, hknown, if_true]

/-- A request with a raw execution field is refused. -/
theorem planForRequest_of_raw (h : containsRawExecutionField (.obj r.fields) = true) :
    planForRequest r.fields = unknownResponse "Request contains raw execution fields." :=
  if_pos h

/-- A list of strings is read back. -/
theorem strings_map_str (actions : List Text) : strings (actions.map .str) = actions := by
  rw [strings, List.filterMap_map]
  exact List.filterMap_some

/-- Otherwise the mapped action is returned if it is known and allowed. -/
theorem planForRequest_of_not_raw (h : containsRawExecutionField (.obj r.fields) = false) :
    planForRequest r.fields =
      if (mapInput r.input).action = ofString "unknown" ∨ (mapInput r.input).action ∉ r.allowed then
        unknownResponse "No allowed action matched the request."
      else response (mapInput r.input) := by
  simp only [planForRequest, h, r.input_eq, r.allowed_eq, Option.getD_some, strings_map_str,
    Bool.false_eq_true, if_false]

/-- What it takes for a response to conform. -/
theorem conforms_iff_of_response {m : Mapping} (h : planForRequest r.fields = response m) :
    r.Conforms ↔ utf8Within maxExplanationBytes m.explanation ∧
      checkDraft r.allowed
        ⟨planFields m.intent m.action (m.args.map (·.take maxArgLen)) m.risk m.explanation,
          m.intent, m.action, m.args.map (·.take maxArgLen), m.risk⟩ = .ok () ∧
      (m.action = ofString "unknown" ∨ m.action ∈ r.allowed) ∧
      ∀ arg ∈ m.args, arg.take maxArgLen ∈ r.tokens := by
  rw [Conforms, h, response]
  constructor
  · rintro ⟨plan, d, hplan, hread, haction, htargets⟩
    obtain ⟨allowed, hallowed, hexplanation, hcheck, rfl⟩ :=
      validateProviderPlan_planFields.mp hplan
    obtain ⟨rfl, -⟩ := readDraft_planFields.mp hread
    obtain rfl : r.allowed = allowed := Except.ok.inj (allowedActions_eq.symm.trans hallowed)
    exact ⟨hexplanation, hcheck, haction, List.forall_mem_map.mp htargets⟩
  · rintro ⟨hexplanation, hcheck, haction, htargets⟩
    exact ⟨_, _,
      validateProviderPlan_planFields.mpr ⟨r.allowed, allowedActions_eq, hexplanation, hcheck, rfl⟩,
      readDraft_planFields.mpr ⟨rfl, hexplanation⟩, haction, List.forall_mem_map.mpr htargets⟩

/-- An unknown action conforms if its explanation is short enough. -/
theorem conforms_of_unknownResponse {explanation : String}
    (h : planForRequest r.fields = unknownResponse explanation)
    (hshort : utf8Within maxExplanationBytes (ofString explanation)) : r.Conforms := by
  refine (conforms_iff_of_response h).mpr ⟨hshort, ?_, .inl rfl, ?_⟩
  · exact checkDraft_of_isUnknown ⟨rfl, rfl, rfl, rfl⟩ r.allowed
  · exact fun arg harg => absurd harg List.not_mem_nil

/-- An allowed plain action conforms. -/
theorem conforms_of_isPlain {action explanation : String} (hplain : IsPlain action explanation)
    (h : planForRequest r.fields = response (plain action explanation))
    (hallowed : ofString action ∈ r.allowed) : r.Conforms := by
  refine (conforms_iff_of_response h).mpr ⟨hplain.short, ?_, .inr hallowed, ?_⟩
  · exact checkDraft_of_keepsContract hallowed ⟨hplain.row, rfl, rfl, rfl, rfl⟩
  · exact fun arg harg => absurd harg List.not_mem_nil

/-! ## Targets -/

/-- The explanation of an action with a target, up to the target, has as many bytes as
characters. -/
theorem utf8_of_targetPhrase {text : Text} {phrase : Phrase}
    (h : targetPhrase text = some phrase) :
    phrase.verb.length ≤ 6 ∧ ∃ bytes, bytes.length = phrase.verb.length + 26 ∧
      utf8 (ofString "Matched " ++ ofString phrase.verb ++ ofString " request for file ") =
        some bytes := by
  rw [targetPhrase] at h
  split_ifs at h <;> cases h <;> exact ⟨by decide, _, rfl, rfl⟩

/-- So the limit on the explanation is one on the target. -/
theorem utf8Within_explanation {phrase : Phrase} {text target : Text}
    (hphrase : targetPhrase text = some phrase) (htarget : (utf8 target).isSome) :
    utf8Within maxExplanationBytes (phrase.mapping target).explanation =
      utf8Within (maxExplanationBytes - (phrase.verb.length + 27)) target := by
  obtain ⟨bytes, hbytes⟩ := Option.isSome_iff_exists.mp htarget
  obtain ⟨hverb, before, hlength, hbefore⟩ := utf8_of_targetPhrase hphrase
  have hdot : utf8 (ofString ".") = some [0x2E] := rfl
  have hexplanation : utf8 (phrase.mapping target).explanation =
      some (before ++ bytes ++ [0x2E]) :=
    utf8_append_eq_some.mpr
      ⟨_, _, utf8_append_eq_some.mpr ⟨before, bytes, hbefore, hbytes, rfl⟩, hdot, rfl⟩
  simp only [utf8Within, hexplanation, hbytes, List.length_append, List.length_singleton,
    hlength, decide_eq_decide, maxExplanationBytes]
  omega

section Asks

variable {phrase : Phrase} {word : Text}

/-- A target is not empty. -/
theorem Asks.word_ne_nil (h : r.Asks phrase word) : word ≠ [] :=
  (Words.forall_mem_words (List.mem_of_getLast? h.word_eq)).1

/-- A target has no surrogate in it, since the request has none. -/
theorem Asks.isSome_utf8Char (h : r.Asks phrase word) : ∀ c ∈ word, (utf8Char c).isSome :=
  fun c hc => isSome_utf8.mp r.encodable c
    ((Words.forall_mem_words (List.mem_of_getLast? h.word_eq)).2 hc)

/-- The plan is about the last word, in lower case. -/
theorem Asks.planForRequest_eq (h : r.Asks phrase word) :
    planForRequest r.fields = response (phrase.mapping (lowerAscii word)) := by
  have htarget : ¬lowerAscii word = [] := fun hnil => h.word_ne_nil (List.map_eq_nil_iff.mp hnil)
  have hmap : mapInput r.input = phrase.mapping (lowerAscii word) := by
    rw [mapInput_of_not_selectsPlain h.plain_eq, mapTarget, h.phrase_eq,
      lastToken_lowerAscii h.word_eq h.not_mem_actionWords]
    exact if_neg htarget
  have hknown : ¬(ofString phrase.action = ofString "unknown" ∨
      ofString phrase.action ∉ r.allowed) := by
    rintro (hunknown | hnot)
    · have hrow := row_of_targetPhrase h.phrase_eq
      rw [hunknown] at hrow
      cases hrow
    · exact hnot h.mem_allowed
  rw [planForRequest_of_not_raw h.raw_eq, hmap]
  exact if_neg hknown

/-- Whether the explanation fits depends on the bytes of the target only. -/
theorem Asks.explanation_within (h : r.Asks phrase word) :
    utf8Within maxExplanationBytes (phrase.mapping (lowerAscii word)).explanation =
      utf8Within (maxExplanationBytes - (phrase.verb.length + 27)) word := by
  have hword := isSome_utf8.mpr h.isSome_utf8Char
  obtain ⟨bytes, hbytes⟩ := Option.isSome_iff_exists.mp hword
  obtain ⟨lowered, hlowered, -⟩ := utf8_lowerAscii hbytes
  rw [utf8Within_explanation h.phrase_eq (Option.isSome_iff_exists.mpr ⟨lowered, hlowered⟩),
    utf8Within_lowerAscii hword]

/-- The check of the target is one of its first `maxArgLen` characters. -/
theorem Asks.checkTargets_iff (h : r.Asks phrase word) :
    checkTargets [lowerAscii (word.take maxArgLen)] = .ok () ↔
      utf8Within maxTargetBytes (word.take maxArgLen) := by
  have hne : lowerAscii (word.take maxArgLen) ≠ [] := by
    intro hnil
    have hlength := congrArg List.length (List.map_eq_nil_iff.mp hnil)
    have hpos := List.length_pos_iff.mpr h.word_ne_nil
    rw [List.length_take, List.length_nil, maxArgLen] at hlength
    omega
  rw [checkTargets_singleton hne, utf8Within_lowerAscii]
  exact isSome_utf8.mpr fun c hc => h.isSome_utf8Char c (List.mem_of_mem_take hc)

/-- An action with a target conforms exactly if the target fits. -/
theorem conforms_iff_fits (h : r.Asks phrase word) : r.Conforms ↔ r.Fits phrase word := by
  have htake : (lowerAscii word).take maxArgLen = lowerAscii (word.take maxArgLen) :=
    List.map_take.symm
  have hargs : (phrase.mapping (lowerAscii word)).args.map (·.take maxArgLen) =
      [lowerAscii (word.take maxArgLen)] := congrArg (fun t => [t]) htake
  rw [conforms_iff_of_response h.planForRequest_eq, h.explanation_within, hargs]
  constructor
  · rintro ⟨hshort, hcheck, -, htokens⟩
    refine ⟨htake ▸ htokens _ List.mem_cons_self, h.checkTargets_iff.mp ?_, hshort⟩
    obtain hunknown | ⟨-, contract, hkeeps⟩ := checkDraft_cases hcheck
    · cases hunknown.args
    · exact hkeeps.targets
  · intro hfits
    refine ⟨hfits.explanation, ?_, .inr h.mem_allowed, List.forall_mem_singleton.mpr ?_⟩
    · exact checkDraft_of_keepsContract h.mem_allowed
        ⟨row_of_targetPhrase h.phrase_eq, rfl, rfl, rfl, h.checkTargets_iff.mpr hfits.target⟩
    · rw [htake]
      exact hfits.token

end Asks

/-- All other requests conform. -/
theorem conforms_of_not_asks (h : ∀ phrase word, ¬r.Asks phrase word) : r.Conforms := by
  cases hraw : containsRawExecutionField (.obj r.fields) with
  | true => exact conforms_of_unknownResponse (planForRequest_of_raw hraw) rfl
  | false =>
    have hplan := planForRequest_of_not_raw hraw
    by_cases hunknown : (mapInput r.input).action = ofString "unknown" ∨
        (mapInput r.input).action ∉ r.allowed
    · rw [if_pos hunknown] at hplan
      exact conforms_of_unknownResponse hplan rfl
    rw [if_neg hunknown] at hplan
    simp only [not_or, not_not] at hunknown
    cases hselects : selectsPlain (lowerAscii r.input) with
    | true =>
      obtain ⟨action, explanation, hmap, hplain⟩ := mapInput_of_selectsPlain hselects
      rw [hmap] at hplan hunknown
      exact conforms_of_isPlain hplain hplan hunknown.2
    | false =>
      -- an action with a target would be one that is asked for
      rw [mapInput_of_not_selectsPlain hselects, mapTarget] at hunknown
      cases hphrase : targetPhrase (lowerAscii r.input) with
      | none =>
        rw [hphrase] at hunknown
        exact absurd rfl hunknown.1
      | some phrase =>
        simp only [hphrase] at hunknown
        by_cases htarget : lastToken (lowerAscii r.input) = []
        · rw [if_pos htarget] at hunknown
          exact absurd rfl hunknown.1
        rw [if_neg htarget] at hunknown
        obtain ⟨word, hword, hnot⟩ := exists_word_of_lastToken htarget
        exact absurd ⟨hraw, hselects, hphrase, hunknown.2, hword, hnot⟩ (h phrase word)

/-- **When the fake provider keeps the contract of the bridge**: if the request asks for an action
with a target, the last word of the input has to fit. -/
theorem fake_provider_conforms_iff (r : PlanningRequest) :
    r.Conforms ↔ ∀ phrase word, r.Asks phrase word → r.Fits phrase word := by
  constructor
  · exact fun hconforms phrase word hasks => (conforms_iff_fits hasks).mp hconforms
  · intro h
    by_cases hasks : ∃ phrase word, r.Asks phrase word
    · obtain ⟨phrase, word, hasks⟩ := hasks
      exact (conforms_iff_fits hasks).mpr (h phrase word hasks)
    · simp only [not_exists] at hasks
      exact conforms_of_not_asks hasks

/-- A request that allows only reading files. -/
def ofInput (input : String) (h : (utf8 (ofString input)).isSome) : PlanningRequest where
  fields :=
    [(ofString "input", .str (ofString input)),
      (ofString "allowedActions", .arr [.str (ofString "read_file")])]
  allowed := [ofString "read_file"]
  input := ofString input
  allowed_eq := rfl
  known := by decide
  input_eq := rfl
  encodable := h

/-- **Names that are not kept.** A name of nine letters and 18 bytes is rejected by the check; a
name with a capital letter, or of 17 letters, becomes another one. -/
theorem read_names_not_kept :
    ¬(ofInput "read ééééééééé" rfl).Conforms ∧ ¬(ofInput "read Notes" rfl).Conforms ∧
      ¬(ofInput "read 0123456789abcdefg" rfl).Conforms := by
  have haccents : (ofInput "read ééééééééé" rfl).Asks readPhrase (ofString "ééééééééé") := by
    decide +kernel
  have hcapital : (ofInput "read Notes" rfl).Asks readPhrase (ofString "Notes") := by
    decide +kernel
  have hlong : (ofInput "read 0123456789abcdefg" rfl).Asks readPhrase
      (ofString "0123456789abcdefg") := by
    decide +kernel
  refine ⟨fun h => ?_, fun h => ?_, fun h => ?_⟩
  · exact absurd ((conforms_iff_fits haccents).mp h).target (by decide +kernel)
  · exact absurd ((conforms_iff_fits hcapital).mp h).token (by decide +kernel)
  · exact absurd ((conforms_iff_fits hlong).mp h).token (by decide +kernel)

end PlanningRequest

end DavOS.Bridge.FakeProvider
