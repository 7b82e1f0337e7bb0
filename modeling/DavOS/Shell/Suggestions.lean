import DavOS.Lib.EditDistance
import DavOS.Shell.Output

/-!
# Suggestions for a mistyped command

Reference: `calculateDistance`, `commandBuf` and the end of `execute` in `shell/shell.go`.

`calculateDistance` keeps two rows of the table whose cell `(i, j)` is the distance between the
first `i` bytes of the word and the first `j` bytes of the command. Both buffers are longer than the
rows, and `curr` still holds the row before when a row is started; `fillRow_spec` says that a row
only depends on `prev` and on the cells already written.
-/

namespace DavOS.Shell

open Agent (ascii)
open EditDistance

/-! ## The functions -/

def minInt (a b : ℕ) : ℕ := if a < b then a else b

/-- `prev` and `curr`. -/
abbrev Row := Vector ℕ (maxLine + 1)

namespace Line

variable (line : Line)

/-- The loop over `j` for the byte at position `pos` of the line, from `curr[0] = i` on. -/
def fillRow (pos i : ℕ) (cmd : List UInt8) (prev curr : Row) : Row :=
  (List.range cmd.length).foldl (fun curr k =>
    let j := k + 1
    let cost := if line.buf[pos]! = cmd.getD (j - 1) 0 then 0 else 1
    curr.set! j (minInt (minInt (prev[j]! + 1) (curr[j - 1]! + 1)) (prev[j - 1]! + cost)))
    (curr.set! 0 i)

/-- The body of the loop over `i`: the next row, and its copy to `prev`. -/
def nextRow (start i : ℕ) (cmd : List UInt8) (rows : Row × Row) : Row × Row :=
  let curr := line.fillRow (start + i - 1) i cmd rows.1 rows.2
  ((List.range (cmd.length + 1)).foldl (fun prev j => prev.set! j curr[j]!) rows.1, curr)

def calculateDistance (start stop : ℕ) (cmd : List UInt8) : ℕ :=
  let lenA := stop - start
  let lenB := cmd.length
  let prev : Row := (List.range (lenB + 1)).foldl (fun prev j => prev.set! j j)
    (Vector.replicate _ 0)
  let curr : Row := Vector.replicate _ 0
  let rows := (List.range lenA).foldl (fun rows k => line.nextRow start (k + 1) cmd rows)
    (prev, curr)
  rows.1[lenB]!

end Line

def maxDistanceThreshold : ℕ := 3

def commandBuf : List String :=
  ["help", "history", "clear", "echo", "ticks", "uptime", "mem", "mmap", "mmapmax", "pfa", "alloc",
    "free", "ls", "write", "cat", "rm", "stat", "disk", "fatinit", "fatformat", "fatinfo", "fatls",
    "fatcreate", "fatread", "layout", "version", "run", "agent"]

/-- The commands that `execute` puts into `suggestionBuf`. -/
def suggestions (line : Line) (cmdStart cmdEnd : ℕ) : List String :=
  commandBuf.filter fun cmd =>
    line.calculateDistance cmdStart cmdEnd (ascii cmd) < maxDistanceThreshold

/-- What `execute` prints for a line that no command handles. -/
def suggestionText (line : Line) (cmdStart cmdEnd : ℕ) : List UInt8 :=
  let suggestionBuf := suggestions line cmdStart cmdEnd
  if suggestionBuf.length > 0 then
    ascii "Did you mean '" ++
      (suggestionBuf.zipIdx.flatMap fun p => (if p.2 > 0 then ascii " " else []) ++ ascii p.1) ++
      ascii "'?" ++ ascii "\n"
  else ascii "Unknown command: " ++ line.slice cmdStart cmdEnd ++ ascii "\n"

/-! ## The table -/

/-- The cell in row `i` and column `j`. -/
def cell (word cmd : List UInt8) (i j : ℕ) : ℕ := distance (word.take i) (cmd.take j)

/-- `minInt` is the minimum. -/
theorem minInt_eq (a b : ℕ) : minInt a b = min a b := by
  rw [minInt]
  split <;> omega

/-- The first row of the table counts the letters of the command. -/
theorem cell_zero_left (word : List UInt8) {cmd : List UInt8} {j : ℕ} (hj : j ≤ cmd.length) :
    cell word cmd 0 j = j := by
  rw [cell, List.take_zero, distance_nil_left, List.length_take, min_eq_left hj]

/-- The first column of the table counts the letters of the word. -/
theorem cell_zero_right {word : List UInt8} (cmd : List UInt8) {i : ℕ} (hi : i ≤ word.length) :
    cell word cmd i 0 = i := by
  rw [cell, List.take_zero, distance_nil_right, List.length_take, min_eq_left hi]

/-- The other cells come from their three neighbours. -/
theorem cell_succ_succ {word cmd : List UInt8} {i j : ℕ} (hi : i < word.length)
    (hj : j < cmd.length) : cell word cmd (i + 1) (j + 1) =
      min (min (cell word cmd i (j + 1) + 1) (cell word cmd (i + 1) j + 1))
        (cell word cmd i j + cost word[i] cmd[j]) := by
  simp only [cell, List.take_succ_eq_append_getElem hi, List.take_succ_eq_append_getElem hj]
  exact distance_concat _ _ _ _

/-- The buffer holds the row `i` of the table, up to column `k`. -/
def Holds (word cmd : List UInt8) (i k : ℕ) (row : Row) : Prop :=
  ∀ j ≤ k, row[j]! = cell word cmd i j

namespace Line

variable (line : Line) {start stop : ℕ} {cmd : List UInt8}

/-- The body of the loop over `j` writes the next cell and keeps the cells before it. -/
theorem fillCell {pos i k : ℕ} {word : List UInt8} (hi : i < word.length)
    (hbyte : line.buf[pos]! = word[i]) (hcmd : cmd.length ≤ maxLine) (hk : k < cmd.length)
    {prev curr : Row} (hprev : Holds word cmd i cmd.length prev)
    (hcurr : Holds word cmd (i + 1) k curr) :
    Holds word cmd (i + 1) (k + 1) (curr.set! (k + 1)
      (minInt (minInt (prev[k + 1]! + 1) (curr[k]! + 1))
        (prev[k]! + if line.buf[pos]! = cmd.getD k 0 then 0 else 1))) := by
  intro j hj
  rw [CopyLoop.getElem!_set!]
  by_cases hlast : k + 1 = j
  · subst hlast
    rw [if_pos ⟨rfl, by omega⟩, hprev (k + 1) (by omega), hprev k (by omega), hcurr k le_rfl,
      minInt_eq, minInt_eq, cell_succ_succ hi hk, hbyte, List.getD_eq_getElem cmd 0 hk]
    rfl
  · rw [if_neg fun h => hlast h.1]
    exact hcurr j (by omega)

/-- **A row is filled from the row before**, whatever the buffer held. -/
theorem fillRow_spec {pos i : ℕ} {word : List UInt8} (hi : i < word.length)
    (hbyte : line.buf[pos]! = word[i]) (hcmd : cmd.length ≤ maxLine) {prev : Row}
    (hprev : Holds word cmd i cmd.length prev) (curr : Row) :
    Holds word cmd (i + 1) cmd.length (line.fillRow pos (i + 1) cmd prev curr) := by
  -- the induction is on the number of columns done
  suffices h : ∀ k ≤ cmd.length, Holds word cmd (i + 1) k ((List.range k).foldl (fun curr k =>
      curr.set! (k + 1) (minInt (minInt (prev[k + 1]! + 1) (curr[k]! + 1))
        (prev[k]! + if line.buf[pos]! = cmd.getD k 0 then 0 else 1))) (curr.set! 0 (i + 1))) from
    h cmd.length le_rfl
  intro k hk
  induction k with
  | zero =>
    intro j hj
    obtain rfl : j = 0 := Nat.le_zero.mp hj
    rw [List.range_zero, List.foldl_nil, CopyLoop.getElem!_set!, if_pos ⟨rfl, by omega⟩,
      cell_zero_right cmd (by omega)]
  | succ k ih =>
    rw [List.range_succ, List.foldl_append, List.foldl_cons, List.foldl_nil]
    exact line.fillCell hi hbyte hcmd (by omega) hprev (ih (by omega))

/-- One round of the outer loop computes the next row. -/
theorem nextRow_spec {k : ℕ} (hk : start + k < stop) (hstop : stop ≤ maxLine)
    (hcmd : cmd.length ≤ maxLine) {rows : Row × Row}
    (hrows : Holds (line.slice start stop) cmd k cmd.length rows.1) :
    Holds (line.slice start stop) cmd (k + 1) cmd.length
      (line.nextRow start (k + 1) cmd rows).1 := by
  have hlen : k < (line.slice start stop).length := by
    rw [line.length_slice hstop]
    omega
  have hbyte : line.buf[start + (k + 1) - 1]! = (line.slice start stop)[k] := by
    simp [line.slice_eq_map hstop]
  have hrow := line.fillRow_spec hlen hbyte hcmd hrows rows.2
  intro j hj
  rw [nextRow, CopyLoop.getElem!_foldl_set! _ (by omega), if_pos (by omega)]
  exact hrow j hj

/-- After `k` rounds, `prev` is the row `k`. -/
theorem foldl_nextRow (hstop : stop ≤ maxLine) (hcmd : cmd.length ≤ maxLine) (rows : Row × Row)
    (hrows : Holds (line.slice start stop) cmd 0 cmd.length rows.1) {k : ℕ}
    (hk : k ≤ stop - start) :
    Holds (line.slice start stop) cmd k cmd.length
      ((List.range k).foldl (fun rows k => line.nextRow start (k + 1) cmd rows) rows).1 := by
  induction k with
  | zero => exact hrows
  | succ k ih =>
    rw [List.range_succ, List.foldl_append, List.foldl_cons, List.foldl_nil]
    exact line.nextRow_spec (by omega) hstop hcmd (ih (by omega))

/-- **`calculateDistance` is the edit distance.** -/
theorem calculateDistance_eq (hstop : stop ≤ maxLine) (hcmd : cmd.length ≤ maxLine) :
    line.calculateDistance start stop cmd = distance (line.slice start stop) cmd := by
  have hlen : (line.slice start stop).length = stop - start := line.length_slice hstop
  have hfirst : Holds (line.slice start stop) cmd 0 cmd.length
      ((List.range (cmd.length + 1)).foldl (fun prev j => prev.set! j j)
        (Vector.replicate _ 0)) := by
    intro j hj
    rw [CopyLoop.getElem!_foldl_set! _ (by omega), if_pos (by omega), cell_zero_left _ hj]
  have hlast :=
    line.foldl_nextRow hstop hcmd (_, Vector.replicate _ 0) hfirst le_rfl cmd.length le_rfl
  rw [cell, List.take_length, List.take_of_length_le hlen.le] at hlast
  exact hlast

end Line

/-! ## The suggestions -/

/-- No command is longer than a line. -/
theorem length_ascii_commandBuf : ∀ cmd ∈ commandBuf, (ascii cmd).length ≤ maxLine := by
  decide +kernel

/-- The commands near a word, in the order of the table. -/
def nearCommands (word : List UInt8) : List String :=
  commandBuf.filter fun cmd => distance word (ascii cmd) < 3

/-- The suggestions are the near commands, in the order of the table. -/
theorem suggestions_eq (line : Line) (cmdStart : ℕ) {cmdEnd : ℕ} (h : cmdEnd ≤ maxLine) :
    suggestions line cmdStart cmdEnd = nearCommands (line.slice cmdStart cmdEnd) := by
  rw [suggestions, nearCommands]
  apply List.filter_congr
  intro cmd hcmd
  rw [line.calculateDistance_eq h (length_ascii_commandBuf cmd hcmd), maxDistanceThreshold]

/-- The loop that prints the suggestions separates them. -/
theorem flatMap_zipIdx_eq (sep : List UInt8) (f : String → List UInt8) (l : List String) :
    (l.zipIdx.flatMap fun p => (if p.2 > 0 then sep else []) ++ f p.1) =
      sep.intercalate (l.map f) := by
  have htail : ∀ (l : List String) (k : ℕ), 0 < k →
      ((l.zipIdx k).flatMap fun p => (if p.2 > 0 then sep else []) ++ f p.1) =
        l.flatMap fun x => sep ++ f x := by
    intro l
    induction l with
    | nil => exact fun _ _ => rfl
    | cons a l ih =>
      intro k hk
      rw [List.zipIdx_cons, List.flatMap_cons, List.flatMap_cons, ih (k + 1) (by omega), if_pos hk]
  cases l with
  | nil => rfl
  | cons a l =>
    rw [List.zipIdx_cons, List.flatMap_cons, htail l (0 + 1) (by omega), if_neg (by omega),
      List.nil_append, List.map_cons]
    induction l generalizing a with
    | nil => simp
    | cons b l ih =>
      rw [List.map_cons, List.intercalate_cons_cons, ← ih, List.flatMap_cons]
      simp

/-- What the shell answers to a word that is no command. -/
def answerText (word : List UInt8) : List UInt8 :=
  if nearCommands word = [] then ascii "Unknown command: " ++ word ++ ascii "\n"
  else ascii "Did you mean '" ++ (ascii " ").intercalate ((nearCommands word).map ascii) ++
    ascii "'?\n"

/-- The text that is printed for a word is `answerText`. -/
theorem suggestionText_eq (line : Line) (cmdStart : ℕ) {cmdEnd : ℕ} (h : cmdEnd ≤ maxLine) :
    suggestionText line cmdStart cmdEnd = answerText (line.slice cmdStart cmdEnd) := by
  rw [suggestionText, answerText, suggestions_eq line cmdStart h, flatMap_zipIdx_eq]
  by_cases hnear : nearCommands (line.slice cmdStart cmdEnd) = []
  · rw [hnear, if_neg (by simp), if_pos rfl]
  · rw [if_neg hnear, if_pos (List.length_pos_iff.mpr hnear), List.append_assoc _ (ascii "'?")]
    rfl

end DavOS.Shell
