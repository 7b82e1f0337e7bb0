import DavOS.Agent.Planner
import DavOS.Lib.CopyLoop
import DavOS.Lib.Words
import Mathlib.Tactic.Linarith

/-!
# The command line

Reference: `trimLeft`, `trimRight`, `firstToken`, `nextArg`, `matchLiteral` and `copyNameFromRange`
of `shell/shell.go`.

The source scans a global buffer by positions. `Line.slice` is the text between two positions, and
each scanning function gets a lemma that says what it does in terms of slices. Together they say
that the commands see the words of the line, one after the other (`firstToken_spec`,
`nextArg_cases`).
-/

namespace DavOS.Shell

open Agent (ascii)

abbrev maxLine : ℕ := 128

/-- `lineBuf` and `lineLen`. What the buffer holds beyond the length is left from earlier lines. -/
structure Line where
  buf : Vector UInt8 maxLine
  len : ℕ
  len_le : len ≤ maxLine

def isSpace (b : UInt8) : Bool := b = 0x20 || b = 0x09

namespace Line

variable (line : Line)

/-- The loop of `trimLeft` and of `firstToken`, with `n` positions left from position `i` on. -/
def scan (p : UInt8 → Bool) : ℕ → ℕ → ℕ
  | 0, i => i
  | n + 1, i => if i < maxLine ∧ p line.buf[i]! then scan p n (i + 1) else i

def trimLeft (start stop : ℕ) : ℕ := line.scan isSpace (stop - start) start

def trimRight (start : ℕ) : ℕ → ℕ
  | 0 => 0
  | i + 1 =>
    if i + 1 > start ∧ i < maxLine ∧ isSpace line.buf[i]! then trimRight start i else i + 1

def firstToken (start stop : ℕ) : ℕ × ℕ :=
  (start, line.scan (fun b => !isSpace b) (stop - start) start)

def matchLiteral (start stop : ℕ) (lit : String) : Bool :=
  if (stop : ℤ) - start ≠ (ascii lit).length then false
  else (List.range (ascii lit).length).all fun i =>
    start + i < maxLine && line.buf[start + i]! = (ascii lit).getD i 0

def nextArg (start stop : ℕ) : Option (ℕ × ℕ) :=
  let i := line.trimLeft start stop
  if i ≥ stop then none
  else
    let (s, e) := line.firstToken i stop
    if s ≥ e then none else some (s, e)

/-- `copyNameFromRange`: the name that is left in `tmpName`, of length `stop - start`. On `none` the
buffer keeps its contents. -/
def copyNameFromRange (start stop : ℕ) : Option Agent.Name :=
  let n := (stop : ℤ) - start
  if n ≤ 0 ∨ n > Agent.maxNameLen then none
  else some ((List.range n.toNat).foldl (fun b i => b.set! i line.buf[start + i]!)
    (Vector.replicate Agent.maxNameLen 0))

/-! ## Slices -/

/-- The text from position `start` up to position `stop`. -/
def slice (start stop : ℕ) : List UInt8 := (line.buf.toList.take stop).drop start

def text : List UInt8 := line.slice 0 line.len

/-- The tokens of the line, by their text. -/
def tokens : List (List UInt8) := Words.words isSpace line.text

/-- The line without the spaces around it. -/
def trimmed : List UInt8 := (line.text.dropWhile isSpace).rdropWhile isSpace

variable {start stop : ℕ}

/-- A part of the line has the length of its range. -/
theorem length_slice (hstop : stop ≤ maxLine) : (line.slice start stop).length = stop - start := by
  rw [slice, List.length_drop, List.length_take, Vector.length_toList, min_eq_left hstop]

/-- A range that ends where it starts, or before, is empty. -/
theorem slice_eq_nil (h : stop ≤ start) : line.slice start stop = [] := by
  rw [slice, List.drop_eq_nil_iff, List.length_take]
  omega

/-- A range that is not empty has a first byte. -/
theorem slice_cons (h : start < stop) (hstop : stop ≤ maxLine) :
    line.slice start stop = line.buf[start]! :: line.slice (start + 1) stop := by
  have hlen : start < (line.buf.toList.take stop).length := by
    rw [List.length_take, Vector.length_toList]
    omega
  rw [slice, slice, List.drop_eq_getElem_cons hlen, List.getElem_take, Vector.getElem_toList,
    getElem!_pos line.buf start (by omega)]

/-- A range that is one longer has one more byte at its end. -/
theorem slice_concat (h : start ≤ stop) (hstop : stop < maxLine) :
    line.slice start (stop + 1) = line.slice start stop ++ [line.buf[stop]!] := by
  rw [slice, slice, List.take_succ_eq_append_getElem (by simpa using hstop),
    List.drop_append_of_le_length (by simp; omega), Vector.getElem_toList,
    getElem!_pos line.buf stop hstop]

/-- A slice, read byte by byte. -/
theorem slice_eq_map (hstop : stop ≤ maxLine) :
    line.slice start stop = (List.range (stop - start)).map fun i => line.buf[start + i]! := by
  apply List.ext_getElem
  · rw [line.length_slice hstop, List.length_map, List.length_range]
  · intro i hi _
    rw [line.length_slice hstop] at hi
    simp only [slice, List.getElem_map, List.getElem_range, List.getElem_drop, List.getElem_take,
      Vector.getElem_toList]
    rw [getElem!_pos line.buf (start + i) (by omega)]

/-! ## What the scans find -/

/-- A scan runs over the longest beginning that satisfies the predicate. -/
theorem scan_spec (p : UInt8 → Bool) (n : ℕ) {i : ℕ} (h : i + n ≤ maxLine) :
    i ≤ line.scan p n i ∧ line.scan p n i ≤ i + n ∧
      line.slice i (line.scan p n i) = (line.slice i (i + n)).takeWhile p ∧
      line.slice (line.scan p n i) (i + n) = (line.slice i (i + n)).dropWhile p := by
  induction n generalizing i with
  | zero =>
    rw [scan, Nat.add_zero, line.slice_eq_nil le_rfl]
    exact ⟨le_rfl, le_rfl, rfl, rfl⟩
  | succ n ih =>
    have hcons : line.slice i (i + (n + 1)) = line.buf[i]! :: line.slice (i + 1) (i + (n + 1)) :=
      line.slice_cons (by omega) h
    rw [scan]
    by_cases hp : p line.buf[i]! = true
    · rw [if_pos ⟨by omega, hp⟩]
      obtain ⟨hle, hstop, htake, hdrop⟩ := ih (i := i + 1) (by omega)
      rw [show i + 1 + n = i + (n + 1) by omega] at hstop htake hdrop
      refine ⟨by omega, hstop, ?_, ?_⟩
      · rw [line.slice_cons (by omega) (by omega), htake, hcons, List.takeWhile_cons_of_pos hp]
      · rw [hdrop, hcons, List.dropWhile_cons_of_pos hp]
    · rw [if_neg fun h => hp h.2]
      refine ⟨le_rfl, by omega, ?_, ?_⟩
      · rw [line.slice_eq_nil le_rfl, hcons, List.takeWhile_cons_of_neg hp]
      · rw [hcons, List.dropWhile_cons_of_neg hp]

/-- `trimLeft` drops the blanks at the start. -/
theorem trimLeft_spec (h : start ≤ stop) (hstop : stop ≤ maxLine) :
    start ≤ line.trimLeft start stop ∧ line.trimLeft start stop ≤ stop ∧
      line.slice (line.trimLeft start stop) stop = (line.slice start stop).dropWhile isSpace := by
  obtain ⟨hle, hle', -, hdrop⟩ :=
    line.scan_spec isSpace (stop - start) (i := start) (by omega)
  rw [Nat.add_sub_cancel' h] at hle' hdrop
  exact ⟨hle, hle', hdrop⟩

/-- `trimRight` drops the blanks at the end. -/
theorem trimRight_spec (h : start ≤ stop) (hstop : stop ≤ maxLine) :
    start ≤ line.trimRight start stop ∧ line.trimRight start stop ≤ stop ∧
      line.slice start (line.trimRight start stop) =
        (line.slice start stop).rdropWhile isSpace := by
  induction stop with
  | zero => exact ⟨h, le_rfl, by simp [trimRight, slice]⟩
  | succ i ih =>
    rw [trimRight]
    by_cases hend : i + 1 > start ∧ i < maxLine ∧ isSpace line.buf[i]!
    · rw [if_pos hend]
      obtain ⟨hle, hle', hslice⟩ := ih (by omega) (by omega)
      refine ⟨hle, by omega, ?_⟩
      rw [hslice, line.slice_concat (by omega) (by omega),
        List.rdropWhile_concat_pos _ _ _ hend.2.2]
    · rw [if_neg hend]
      refine ⟨h, le_rfl, ?_⟩
      rcases Nat.lt_or_ge start (i + 1) with hlt | hge
      · rw [line.slice_concat (by omega) (by omega), List.rdropWhile_concat_neg]
        exact fun hspace => hend ⟨hlt, by omega, hspace⟩
      · rw [line.slice_eq_nil hge, List.rdropWhile_nil]

/-- `matchLiteral` compares the whole range. -/
theorem matchLiteral_iff {lit : String} (h : start ≤ stop) (hstop : stop ≤ maxLine) :
    line.matchLiteral start stop lit = true ↔ line.slice start stop = ascii lit := by
  have hlen : (line.slice start stop).length = stop - start := line.length_slice hstop
  rw [matchLiteral]
  by_cases hlit : (stop : ℤ) - start = (ascii lit).length
  swap
  · rw [if_pos hlit]
    refine iff_of_false (by simp) ?_
    intro heq
    rw [heq] at hlen
    omega
  rw [if_neg (not_not.mpr hlit)]
  have hget : ∀ i (hi : i < (line.slice start stop).length),
      (line.slice start stop)[i] = line.buf[start + i]! := by
    intro i hi
    simp [line.slice_eq_map hstop]
  constructor
  · intro hall
    simp only [List.all_eq_true, List.mem_range, Bool.and_eq_true, decide_eq_true_eq] at hall
    apply List.ext_getElem
    · omega
    · intro i hi hi'
      simp [hget i hi, (hall i hi').2, hi']
  · intro heq
    simp only [List.all_eq_true, List.mem_range, Bool.and_eq_true, decide_eq_true_eq]
    intro i hi
    refine ⟨by omega, ?_⟩
    rw [← hget i (by omega)]
    simp [heq, hi]

/-- A position where `trimLeft` stops early is not a space. -/
theorem trimLeft_not_space (h : start ≤ stop) (hstop : stop ≤ maxLine)
    (hlt : line.trimLeft start stop < stop) :
    isSpace line.buf[line.trimLeft start stop]! = false := by
  obtain ⟨-, -, hdrop⟩ := line.trimLeft_spec h hstop
  rw [line.slice_cons hlt hstop] at hdrop
  have hhead := List.head?_dropWhile_not isSpace (line.slice start stop)
  rw [← hdrop] at hhead
  simpa using hhead

/-! ## Tokens -/

/-- `firstToken` cuts off the first word. -/
theorem firstToken_spec (h : start < stop) (hstop : stop ≤ maxLine)
    (hspace : isSpace line.buf[start]! = false) :
    start < (line.firstToken start stop).2 ∧ (line.firstToken start stop).2 ≤ stop ∧
      Words.words isSpace (line.slice start stop) =
        line.slice start (line.firstToken start stop).2 ::
          Words.words isSpace (line.slice (line.firstToken start stop).2 stop) := by
  obtain ⟨hle, hle', htake, hdrop⟩ :=
    line.scan_spec (fun b => !isSpace b) (stop - start) (i := start) (by omega)
  rw [Nat.add_sub_cancel' h.le] at hle' htake hdrop
  rw [firstToken]
  set e := line.scan (fun b => !isSpace b) (stop - start) start
  have hcons := line.slice_cons h hstop
  have hwords := Words.words_cons_of_not_sep hspace (line.slice (start + 1) stop)
  rw [← hcons, ← htake, ← hdrop] at hwords
  refine ⟨lt_of_le_of_ne hle ?_, hle', hwords⟩
  intro heq
  rw [hcons, List.takeWhile_cons_of_pos (by simp [hspace]), line.slice_eq_nil heq.ge] at htake
  simp at htake

/-- **The next argument is the next word.** -/
theorem nextArg_cases (h : start ≤ stop) (hstop : stop ≤ maxLine) :
    (line.nextArg start stop = none ∧ Words.words isSpace (line.slice start stop) = []) ∨
    ∃ s e, line.nextArg start stop = some (s, e) ∧ s < e ∧ e ≤ stop ∧
      Words.words isSpace (line.slice start stop) =
        line.slice s e :: Words.words isSpace (line.slice e stop) := by
  obtain ⟨-, -, hdrop⟩ := line.trimLeft_spec h hstop
  have hspace := line.trimLeft_not_space h hstop
  rw [nextArg, ← Words.words_dropWhile (line.slice start stop), ← hdrop]
  set i := line.trimLeft start stop
  dsimp only
  by_cases hend : i ≥ stop
  · rw [if_pos hend, line.slice_eq_nil hend]
    exact .inl ⟨rfl, Words.words_nil⟩
  · rw [if_neg hend]
    obtain ⟨hlt, hle, hwords⟩ :=
      line.firstToken_spec (not_le.mp hend) hstop (hspace (not_le.mp hend))
    refine .inr ⟨i, (line.firstToken i stop).2, ?_, hlt, hle, hwords⟩
    exact if_neg (not_le.mpr hlt)

/-- `nextArg` where the words that are left are known. -/
theorem nextArg_of_words (h : start ≤ stop) (hstop : stop ≤ maxLine) {word : List UInt8}
    {rest : List (List UInt8)}
    (hwords : Words.words isSpace (line.slice start stop) = word :: rest) :
    ∃ s e, line.nextArg start stop = some (s, e) ∧ s < e ∧ e ≤ stop ∧ line.slice s e = word ∧
      Words.words isSpace (line.slice e stop) = rest := by
  rcases line.nextArg_cases h hstop with ⟨-, hnil⟩ | ⟨s, e, hsome, hlt, hle, hcons⟩
  · cases hnil.symm.trans hwords
  · obtain ⟨hword, hrest⟩ := List.cons.inj (hcons.symm.trans hwords)
    exact ⟨s, e, hsome, hlt, hle, hword, hrest⟩

/-- Without words there is no argument. -/
theorem nextArg_of_words_nil (h : start ≤ stop) (hstop : stop ≤ maxLine)
    (hwords : Words.words isSpace (line.slice start stop) = []) :
    line.nextArg start stop = none := by
  rcases line.nextArg_cases h hstop with ⟨hnone, -⟩ | ⟨s, e, -, -, -, hcons⟩
  · exact hnone
  · cases hcons.symm.trans hwords

/-- What `execute` cuts off the line before it looks at it. -/
theorem trim_spec {first last : ℕ} (hfirst : first = line.trimLeft 0 line.len)
    (hlast : last = line.trimRight first line.len) :
    first ≤ last ∧ last ≤ maxLine ∧ line.slice first last = line.trimmed ∧
      (first < last → isSpace line.buf[first]! = false) := by
  obtain ⟨-, hle, hslice⟩ := line.trimLeft_spec (Nat.zero_le _) line.len_le
  obtain ⟨hle', hlen, hslice'⟩ := line.trimRight_spec (hfirst ▸ hle) line.len_le
  rw [← hfirst] at hle hslice
  rw [← hlast] at hle' hlen hslice'
  refine ⟨hle', hlen.trans line.len_le, ?_, ?_⟩
  · rw [hslice', hslice]
    rfl
  · intro hlt
    rw [hfirst] at hlt ⊢
    exact line.trimLeft_not_space (Nat.zero_le _) line.len_le (lt_of_lt_of_le hlt hlen)

/-- Trimming changes no word. -/
theorem words_trimmed : Words.words isSpace line.trimmed = line.tokens := by
  rw [trimmed, Words.words_rdropWhile, Words.words_dropWhile]
  rfl

/-- A copied name is the text it was copied from, and only texts of 1 to 16 bytes are copied. -/
theorem copyNameFromRange_cases (h : start ≤ stop) (hstop : stop ≤ maxLine) :
    (line.copyNameFromRange start stop = none ∧
      ¬ (1 ≤ stop - start ∧ stop - start ≤ Agent.maxNameLen)) ∨
    ∃ name, line.copyNameFromRange start stop = some name ∧ 1 ≤ stop - start ∧
      stop - start ≤ Agent.maxNameLen ∧
      name.toList.take (stop - start) = line.slice start stop := by
  rw [copyNameFromRange]
  by_cases hn : (stop : ℤ) - start ≤ 0 ∨ (stop : ℤ) - start > Agent.maxNameLen
  · rw [if_pos hn]
    exact .inl ⟨rfl, by omega⟩
  · rw [if_neg hn]
    refine .inr ⟨_, rfl, by omega, by omega, ?_⟩
    have hlen : ((stop : ℤ) - start).toNat = stop - start := by omega
    rw [hlen, CopyLoop.toList_foldl_set! _ (by omega), List.take_left' (by simp),
      line.slice_eq_map hstop]

end Line

end DavOS.Shell
