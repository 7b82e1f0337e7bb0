import Mathlib.Data.List.DropRight

/-!
# Words of a list

The words of a list are its maximal runs of elements that are not separators. The lemmas say that
separators at either end do not matter (`words_dropWhile`, `words_rdropWhile`), and how a scan that
takes one run at a time meets the words in order (`words_cons_of_not_sep`).
-/

namespace Words

variable {α : Type} {sep : α → Bool}

/-- The maximal runs of elements of `l` that are not separators, in order. -/
def words (sep : α → Bool) (l : List α) : List (List α) :=
  (l.splitOnP sep).filter fun w => !w.isEmpty

@[simp] theorem words_nil : words sep [] = [] := by
  simp [words]

/-- A separator in front is dropped. -/
theorem words_cons_of_sep {a : α} (ha : sep a = true) (l : List α) :
    words sep (a :: l) = words sep l := by
  rw [words, List.splitOnP_cons_eq_if_modifyHead, if_pos ha]
  rfl

/-- Separators in front make no difference. -/
theorem words_dropWhile (l : List α) : words sep (l.dropWhile sep) = words sep l := by
  induction l with
  | nil => rfl
  | cons a l ih =>
    by_cases ha : sep a = true
    · rw [List.dropWhile_cons_of_pos ha, ih, words_cons_of_sep ha]
    · rw [List.dropWhile_cons_of_neg ha]

/-- Separators at the end make no difference. -/
theorem words_rdropWhile (l : List α) : words sep (l.rdropWhile sep) = words sep l := by
  induction l using List.reverseRecOn with
  | nil => simp
  | append_singleton l a ih =>
    by_cases ha : sep a = true
    · rw [List.rdropWhile_concat_pos _ _ _ ha, ih, words, words,
        List.splitOnP_append_cons l [] ha, List.filter_append, List.splitOnP_nil]
      simp
    · rw [List.rdropWhile_concat_neg _ _ _ ha]

/-- The first word of a list that does not start with a separator. -/
theorem words_cons_of_not_sep {a : α} (ha : sep a = false) (l : List α) :
    words sep (a :: l) = (a :: l).takeWhile (fun a => !sep a) ::
      words sep ((a :: l).dropWhile fun a => !sep a) := by
  set run := (a :: l).takeWhile fun a => !sep a with hrun
  have hrun_ne : ¬ run = [] := by
    simp [hrun, ha]
  have hrun_all : ∀ x ∈ run, sep x = false := by
    intro x hx
    simpa using List.mem_takeWhile_imp hx
  have hsplit : a :: l = run ++ (a :: l).dropWhile (fun a => !sep a) :=
    (List.takeWhile_append_dropWhile).symm
  rcases hrest : (a :: l).dropWhile (fun a => !sep a) with _ | ⟨s, rest⟩
  · rw [hrest, List.append_nil] at hsplit
    rw [hsplit, words, List.splitOnP_eq_singleton hrun_all]
    simp [hrun_ne]
  · have hs : sep s = true := by
      have := List.head?_dropWhile_not (fun a => !sep a) (a :: l)
      rw [hrest] at this
      simpa using this
    rw [hrest] at hsplit
    rw [hsplit, words_cons_of_sep hs, words, List.splitOnP_append_cons_of_forall_mem hrun_all s hs,
      List.filter_cons_of_pos (by simp [hrun_ne])]
    rfl

/-- A word is not empty, and its letters are those of the text. -/
theorem forall_mem_words {l w : List α} (hw : w ∈ words sep l) : w ≠ [] ∧ w ⊆ l := by
  obtain ⟨hmem, hne⟩ := List.mem_filter.mp hw
  refine ⟨by simpa using hne, ?_⟩
  clear hw hne
  induction l generalizing w with
  | nil =>
    rw [List.splitOnP_nil, List.mem_singleton] at hmem
    subst hmem
    exact List.nil_subset _
  | cons a l ih =>
    rw [List.splitOnP_cons_eq_if_modifyHead] at hmem
    split at hmem
    · obtain rfl | hrest := List.mem_cons.mp hmem
      · exact List.nil_subset _
      · exact List.Subset.trans (ih hrest) (List.subset_cons_self a l)
    · obtain ⟨first, rest, hsplit⟩ := List.exists_cons_of_ne_nil (List.splitOnP_ne_nil sep l)
      rw [hsplit, List.modifyHead_cons, List.mem_cons] at hmem
      rw [hsplit] at ih
      obtain rfl | hrest := hmem
      · exact List.cons_subset_cons a (ih List.mem_cons_self)
      · exact List.Subset.trans (ih (List.mem_cons_of_mem _ hrest)) (List.subset_cons_self a l)

/-- What follows the first word of a list that starts with one, and the separators behind it. -/
def afterWord (sep : α → Bool) (l : List α) : List α :=
  (l.dropWhile fun a => !sep a).dropWhile sep

/-- A map that keeps the separators maps the words. -/
theorem words_map {f : α → α} (hf : ∀ a, sep (f a) = sep a) (l : List α) :
    words sep (l.map f) = (words sep l).map (List.map f) := by
  have hsplit : (l.map f).splitOnP sep = (l.splitOnP sep).map (List.map f) := by
    induction l with
    | nil => rfl
    | cons a l ih =>
      rw [List.map_cons, List.splitOnP_cons_eq_if_modifyHead, List.splitOnP_cons_eq_if_modifyHead,
        hf, ih]
      split
      · rfl
      · cases l.splitOnP sep <;> rfl
  rw [words, hsplit, List.filter_map, words]
  congr 2
  funext w
  simp

/-! ## The last word -/

/-- A separator separates the words on its two sides. -/
theorem words_append_cons {s : α} (hs : sep s = true) (l l' : List α) :
    words sep (l ++ s :: l') = words sep l ++ words sep l' := by
  rw [words, List.splitOnP_append_cons l l' hs, List.filter_append]
  rfl

/-- The run of elements that are not separators at the end of a list, before separators that may
follow it. -/
def lastWord (sep : α → Bool) (l : List α) : List α :=
  (l.rdropWhile sep).rtakeWhile fun a => !sep a

/-- A text without separators is one word. -/
theorem words_of_forall {l : List α} (hne : l ≠ []) (h : ∀ a ∈ l, sep a = false) :
    words sep l = [l] := by
  rw [words, List.splitOnP_eq_singleton h]
  simp [hne]

/-- A scan from the end of the list finds the last word. -/
theorem getLast?_words (l : List α) :
    (words sep l).getLast? = if lastWord sep l = [] then none else some (lastWord sep l) := by
  rw [← words_rdropWhile, lastWord]
  set m := l.rdropWhile sep with hm
  by_cases hnil : m.rtakeWhile (fun a => !sep a) = []
  · -- the list would end with a separator
    have hempty : m = [] := by
      by_contra hne
      have hlast := List.rtakeWhile_eq_nil_iff.mp hnil hne
      have hnot := List.rdropWhile_last_not sep l hne
      simp only [Bool.not_eq_true', Bool.not_eq_false] at hlast
      exact hnot hlast
    rw [if_pos hnil, hempty]
    simp
  rw [if_neg hnil]
  have hrun : ∀ a ∈ m.rtakeWhile (fun a => !sep a), sep a = false := by
    intro a ha
    simpa using List.mem_rtakeWhile_imp ha
  have hsplit := List.rdropWhile_append_rtakeWhile (p := fun a => !sep a) (l := m)
  rcases List.eq_nil_or_concat (m.rdropWhile fun a => !sep a) with hbefore | ⟨before, s, hbefore⟩
  · rw [hbefore, List.nil_append] at hsplit
    rw [hsplit] at hnil hrun ⊢
    rw [words_of_forall hnil hrun]
    rfl
  · have hs : sep s = true := by
      have hlast := List.rdropWhile_last_not (fun a => !sep a) m (by simp [hbefore])
      simpa [hbefore] using hlast
    rw [hbefore, List.concat_eq_append, List.append_assoc, List.singleton_append] at hsplit
    rw [← hsplit, words_append_cons hs, hsplit, words_of_forall hnil hrun]
    simp

end Words
