import DavOS.Lib.Amd64

/-!
# Words on a stack

What stands at the top of a stack, as a list of words, and what pushing a list of words does to
memory. A push changes only the bytes right below the stack pointer (`SameOutside`).
-/

namespace Amd64

open LittleEndian (toNat_add_ofNat)

/-! ## Memory outside a range -/

/-- Memory is the same but for the addresses from `low` to `high`. -/
def SameOutside (low high : ℕ) (mem mem' : Memory) : Prop :=
  ∀ a : UInt64, ¬(low ≤ a.toNat ∧ a.toNat < high) → mem' a = mem a

namespace SameOutside

variable {low mid high : ℕ} {mem mem' mem'' : Memory}

/-- Nothing has changed. -/
theorem refl (low high : ℕ) (mem : Memory) : SameOutside low high mem mem := fun _ _ => rfl

/-- Changes of one range compose. -/
theorem trans (h : SameOutside low high mem mem') (h' : SameOutside low high mem' mem'') :
    SameOutside low high mem mem'' := fun a ha => (h' a ha).trans (h a ha)

/-- A change of a range is one of any larger range. -/
theorem mono {low' high' : ℕ} (h : SameOutside low high mem mem') (hlow : low' ≤ low)
    (hhigh : high ≤ high') : SameOutside low' high' mem mem' := by
  intro a ha
  refine h a ?_
  omega

/-- A word outside the range is as before. -/
theorem load_eq (h : SameOutside low high mem mem') {a : UInt64} (hlt : a.toNat + 8 ≤ 2 ^ 64)
    (ha : a.toNat + 8 ≤ low ∨ high ≤ a.toNat) : load a mem' = load a mem := by
  refine load_congr fun k hk => h _ ?_
  rw [toNat_add_ofNat (by omega)]
  omega

end SameOutside

/-- A store changes its eight bytes. -/
theorem sameOutside_store {a w : UInt64} {mem : Memory} (ha : a.toNat + 8 ≤ 2 ^ 64) :
    SameOutside a.toNat (a.toNat + 8) mem (store a w mem) := by
  intro b hb
  refine store_of_disjoint ha ?_
  omega

/-! ## The words from an address on -/

def StackHolds (mem : Memory) : UInt64 → List UInt64 → Prop
  | _, [] => True
  | sp, w :: ws => load sp mem = w ∧ StackHolds mem (sp + 8) ws

namespace StackHolds

variable {mem mem' : Memory} {sp : UInt64} {ws vs : List UInt64}

/-- A stack holds two lists if it holds each at its place. -/
theorem append :
    StackHolds mem sp (ws ++ vs) ↔
      StackHolds mem sp ws ∧ StackHolds mem (sp + .ofNat (8 * ws.length)) vs := by
  induction ws generalizing sp with
  | nil => simp [StackHolds]
  | cons w ws ih =>
    have hshift : sp + 8 + .ofNat (8 * ws.length) = sp + .ofNat (8 * (w :: ws).length) := by
      rw [List.length_cons, Nat.mul_succ, Nat.add_comm, UInt64.ofNat_add, UInt64.add_assoc]
      rfl
    rw [List.cons_append, StackHolds, StackHolds, ih, hshift, and_assoc]

/-- The words are in their bytes. -/
theorem congr (h : StackHolds mem sp ws) (hlt : sp.toNat + 8 * ws.length < 2 ^ 64)
    (hmem : ∀ a : UInt64, sp.toNat ≤ a.toNat → a.toNat < sp.toNat + 8 * ws.length →
      mem' a = mem a) : StackHolds mem' sp ws := by
  induction ws generalizing sp with
  | nil => trivial
  | cons w ws ih =>
    rw [List.length_cons] at hlt hmem
    have hnext : (sp + 8).toNat = sp.toNat + 8 := toNat_add_ofNat (k := 8) (by omega)
    refine ⟨?_, ih h.2 (by omega) fun a hlow hhigh => hmem a (by omega) (by omega)⟩
    refine (load_congr fun k hk => hmem _ ?_ ?_).trans h.1
    · rw [toNat_add_ofNat (by omega)]
      omega
    · rw [toNat_add_ofNat (by omega)]
      omega

/-- A stack that holds words has each of them at its place. -/
theorem load_eq (h : StackHolds mem sp ws) {k : ℕ} (hk : k < ws.length) :
    load (sp + .ofNat (8 * k)) mem = ws[k] := by
  induction ws generalizing sp k with
  | nil => exact absurd hk (Nat.not_lt_zero _)
  | cons w ws ih =>
    cases k with
    | zero =>
      rw [Nat.mul_zero, show UInt64.ofNat 0 = 0 from rfl, UInt64.add_zero]
      exact h.1
    | succ k =>
      have hshift : sp + .ofNat (8 * (k + 1)) = sp + 8 + .ofNat (8 * k) := by
        rw [Nat.mul_succ, Nat.add_comm, UInt64.ofNat_add, UInt64.add_assoc]
        rfl
      rw [hshift]
      exact ih h.2 (Nat.lt_of_succ_lt_succ hk)

/-- All words, read one by one. -/
theorem map_load (h : StackHolds mem sp ws) :
    (List.range ws.length).map (fun k => load (sp + .ofNat (8 * k)) mem) = ws := by
  apply List.ext_getElem
  · rw [List.length_map, List.length_range]
  · intro k _ hk
    rw [List.getElem_map, List.getElem_range, h.load_eq hk]

/-- A change elsewhere. -/
theorem of_sameOutside {low high : ℕ} (h : StackHolds mem sp ws)
    (hmem : SameOutside low high mem mem') (hlt : sp.toNat + 8 * ws.length < 2 ^ 64)
    (hapart : sp.toNat + 8 * ws.length ≤ low ∨ high ≤ sp.toNat) : StackHolds mem' sp ws := by
  refine h.congr hlt fun a hlow hhigh => hmem a ?_
  omega

end StackHolds

/-! ## Storing words one behind the other -/

def storeAll : List UInt64 → UInt64 → Memory → Memory
  | [], _, mem => mem
  | w :: ws, a, mem => storeAll ws (a + 8) (store a w mem)

section

variable {ws : List UInt64} {a : UInt64} {mem : Memory}

/-- Storing words changes their bytes only. -/
theorem sameOutside_storeAll (h : a.toNat + 8 * ws.length < 2 ^ 64) :
    SameOutside a.toNat (a.toNat + 8 * ws.length) mem (storeAll ws a mem) := by
  induction ws generalizing a mem with
  | nil => exact SameOutside.refl _ _ _
  | cons w ws ih =>
    rw [List.length_cons] at h ⊢
    have hnext : (a + 8).toNat = a.toNat + 8 := toNat_add_ofNat (k := 8) (by omega)
    have hrest : SameOutside _ _ (store a w mem) (storeAll ws (a + 8) (store a w mem)) :=
      ih (by omega)
    exact ((sameOutside_store (by omega)).mono le_rfl (by omega)).trans
      (hrest.mono (by omega) (by omega))

/-- Words that are stored are held. -/
theorem stackHolds_storeAll (h : a.toNat + 8 * ws.length < 2 ^ 64) :
    StackHolds (storeAll ws a mem) a ws := by
  induction ws generalizing a mem with
  | nil => trivial
  | cons w ws ih =>
    rw [List.length_cons] at h
    have hnext : (a + 8).toNat = a.toNat + 8 := toNat_add_ofNat (k := 8) (by omega)
    have hrest : SameOutside _ _ (store a w mem) (storeAll ws (a + 8) (store a w mem)) :=
      sameOutside_storeAll (by omega)
    refine ⟨?_, ih (by omega)⟩
    rw [storeAll, hrest.load_eq (by omega) (by omega), load_store_self]

end

/-! ## Pushing words -/

namespace Machine

/-- The words are pushed from the left, so that the last one is on top. -/
def pushAll (ws : List UInt64) (m : Machine) : Machine := ws.foldl (fun m w => m.pushWord w) m

variable {m : Machine} {w : UInt64} {ws vs : List UInt64}

/-- The last word is pushed last. -/
theorem pushAll_concat (ws : List UInt64) (w : UInt64) (m : Machine) :
    m.pushAll (ws ++ [w]) = (m.pushAll ws).pushWord w := by
  rw [pushAll, List.foldl_append]
  rfl

/-- A push moves the stack pointer down by a word. -/
theorem rsp_pushWord (w : UInt64) (m : Machine) :
    (m.pushWord w).regs .rsp = m.regs .rsp - 8 := by
  simp only [pushWord, Function.update_self]

@[simp] theorem rip_pushAll (ws : List UInt64) (m : Machine) : (m.pushAll ws).rip = m.rip := by
  induction ws generalizing m with
  | nil => rfl
  | cons w ws ih => exact ih (m.pushWord w)

/-- Pushes change the stack pointer and no other register. -/
theorem regs_pushAll (ws : List UInt64) (m : Machine) :
    (m.pushAll ws).regs = Function.update m.regs .rsp (m.regs .rsp - .ofNat (8 * ws.length)) := by
  induction ws generalizing m with
  | nil => simp [pushAll]
  | cons w ws ih =>
    have hshift : ∀ sp : UInt64, sp - 8 - .ofNat (8 * ws.length) =
        sp - .ofNat (8 * (w :: ws).length) := by
      intro sp
      have hsum : UInt64.ofNat (8 * (w :: ws).length) = .ofNat (8 * ws.length) + 8 := by
        rw [List.length_cons, Nat.mul_succ, UInt64.ofNat_add]
        rfl
      rw [hsum]
      grind
    have hpush : (m.pushWord w).regs = Function.update m.regs .rsp (m.regs .rsp - 8) := rfl
    change ((m.pushWord w).pushAll ws).regs = _
    rw [ih, hpush, Function.update_self, Function.update_idem, hshift]

/-- The stack pointer after several pushes. -/
theorem rsp_pushAll (ws : List UInt64) (m : Machine) :
    (m.pushAll ws).regs .rsp = m.regs .rsp - .ofNat (8 * ws.length) := by
  rw [regs_pushAll, Function.update_self]

/-- It does not wrap if there is room. -/
theorem toNat_rsp_pushAll (h : 8 * ws.length ≤ (m.regs .rsp).toNat) :
    ((m.pushAll ws).regs .rsp).toNat = (m.regs .rsp).toNat - 8 * ws.length := by
  rw [rsp_pushAll, toNat_sub_ofNat h]

/-- Pushes change the bytes between the new and the old stack pointer. -/
theorem sameOutside_pushAll (h : 8 * ws.length ≤ (m.regs .rsp).toNat) :
    SameOutside ((m.regs .rsp).toNat - 8 * ws.length) (m.regs .rsp).toNat m.mem
      (m.pushAll ws).mem := by
  induction ws generalizing m with
  | nil => exact SameOutside.refl _ _ _
  | cons w ws ih =>
    rw [List.length_cons] at h
    have hlt := (m.regs .rsp).toNat_lt
    have htop : (m.regs .rsp - 8).toNat = (m.regs .rsp).toNat - 8 :=
      toNat_sub_ofNat (k := 8) (by omega)
    have hpush := rsp_pushWord w m
    have hword : SameOutside ((m.regs .rsp).toNat - 8) (m.regs .rsp).toNat m.mem
        (m.pushWord w).mem := by
      have hstore : SameOutside (m.regs .rsp - 8).toNat ((m.regs .rsp - 8).toNat + 8) m.mem
          (m.pushWord w).mem := sameOutside_store (by omega)
      exact hstore.mono (by omega) (by omega)
    have hrest := ih (m := m.pushWord w) (by rw [hpush]; omega)
    rw [hpush, htop] at hrest
    rw [List.length_cons]
    exact (hword.mono (by omega) le_rfl).trans (hrest.mono (by omega) (by omega))

/-- What is pushed stands on top of what stood there. -/
theorem stackHolds_pushAll (h : 8 * ws.length ≤ (m.regs .rsp).toNat)
    (hvs : StackHolds m.mem (m.regs .rsp) vs)
    (hlt : (m.regs .rsp).toNat + 8 * vs.length < 2 ^ 64) :
    StackHolds (m.pushAll ws).mem ((m.pushAll ws).regs .rsp) (ws.reverse ++ vs) := by
  induction ws generalizing m vs with
  | nil => exact hvs
  | cons w ws ih =>
    rw [List.length_cons] at h
    have htop : (m.regs .rsp - 8).toNat = (m.regs .rsp).toNat - 8 :=
      toNat_sub_ofNat (k := 8) (by omega)
    have hpush := rsp_pushWord w m
    have hone : StackHolds (m.pushWord w).mem ((m.pushWord w).regs .rsp) (w :: vs) := by
      rw [hpush]
      refine ⟨load_store_self .., ?_⟩
      rw [UInt64.sub_add_cancel]
      refine hvs.congr hlt fun a hlow _ => store_of_disjoint ?_ ?_
      · omega
      · omega
    rw [List.reverse_cons, List.append_assoc]
    refine ih (m := m.pushWord w) ?_ hone ?_
    · rw [hpush]
      omega
    · rw [hpush, List.length_append, List.length_singleton]
      omega

end Machine

end Amd64
