import Mathlib.Data.List.Sort
import Mathlib.Data.List.Lex
import Mathlib.Order.Fin.Basic
import Mathlib.Algebra.Ring.Nat
import Mathlib.Algebra.Order.BigOperators.Group.List
import Mathlib.Algebra.Order.Ring.Nat

/-!
# JSON values and their text

Strings are lists of code points, surrogates included. `Value.dumps` is the compact text of a value
with its keys sorted and all characters escaped that are not printable ASCII: each of them becomes
1, 2, 6 or 12 bytes.
-/

namespace JsonText

abbrev CodePoint := Fin 0x110000

abbrev Text := List CodePoint

/-- The text of a literal. -/
def ofString (literal : String) : Text := literal.toList.map fun c => Fin.ofNat _ c.toNat

def codePoint (n : ℕ) : CodePoint := Fin.ofNat _ n

instance : LawfulBEq Text := inferInstance

/-- The bytes of an ASCII literal. -/
def asciiBytes (literal : String) : List UInt8 := literal.toList.map fun c => UInt8.ofNat c.toNat

inductive Value
  | null
  | bool (b : Bool)
  | int (n : ℤ)
  /-- A float, by its text. -/
  | float (text : List UInt8)
  | str (s : Text)
  | arr (items : List Value)
  | obj (fields : List (Text × Value))

/-! ## Fields -/

section Fields

variable {V : Type*}

/-- An assignment to a field, in its place or behind the others. -/
def setField (key : Text) (v : V) : List (Text × V) → List (Text × V)
  | [] => [(key, v)]
  | (k, w) :: rest => if k = key then (k, v) :: rest else (k, w) :: setField key v rest

variable {key : Text} {v : V} {fields : List (Text × V)}

/-- A field that has been set is found. -/
theorem lookup_setField_self : (setField key v fields).lookup key = some v := by
  induction fields with
  | nil => rw [setField, List.lookup_cons_self]
  | cons field rest ih =>
    obtain ⟨k, w⟩ := field
    rw [setField]
    split
    case isTrue hk => rw [hk, List.lookup_cons_self]
    case isFalse hk => rw [List.lookup_cons, beq_false_of_ne (Ne.symm hk), ih]

/-- The other fields stay as they are. -/
theorem lookup_setField_of_ne {other : Text} (h : other ≠ key) :
    (setField key v fields).lookup other = fields.lookup other := by
  induction fields with
  | nil => rw [setField, List.lookup_cons, beq_false_of_ne h]
  | cons field rest ih =>
    obtain ⟨k, w⟩ := field
    rw [setField]
    split
    case isTrue hk =>
      subst hk
      rw [List.lookup_cons, List.lookup_cons, beq_false_of_ne h]
    case isFalse hk => rw [List.lookup_cons, List.lookup_cons, ih]

/-- The last value of a field counts. -/
theorem setField_setField (v' : V) :
    setField key v (setField key v' fields) = setField key v fields := by
  induction fields with
  | nil => rw [setField, setField, setField, if_pos rfl]
  | cons field rest ih =>
    obtain ⟨k, w⟩ := field
    by_cases hk : k = key
    · rw [setField, if_pos hk, setField, if_pos hk, setField, if_pos hk]
    · rw [setField, if_neg hk, setField, if_neg hk, ih, setField, if_neg hk]

/-- Setting a field adds its key. -/
theorem mem_keys_setField {other : Text} :
    other ∈ (setField key v fields).map Prod.fst ↔ other = key ∨ other ∈ fields.map Prod.fst := by
  induction fields with
  | nil => rw [setField, List.map_singleton, List.mem_singleton, List.map_nil,
      iff_false_intro List.not_mem_nil, or_false]
  | cons field rest ih =>
    obtain ⟨k, w⟩ := field
    rw [setField, List.map_cons, List.mem_cons]
    split
    case isTrue hk =>
      subst hk
      rw [List.map_cons, List.mem_cons, ← or_assoc, or_self]
    case isFalse hk =>
      rw [List.map_cons, List.mem_cons, ih, or_left_comm]

/-- Setting a field makes no key occur twice. -/
theorem nodup_keys_setField (h : (fields.map Prod.fst).Nodup) :
    ((setField key v fields).map Prod.fst).Nodup := by
  induction fields with
  | nil => exact List.nodup_singleton key
  | cons field rest ih =>
    obtain ⟨k, w⟩ := field
    rw [List.map_cons, List.nodup_cons] at h
    rw [setField]
    split
    case isTrue => exact List.nodup_cons.mpr h
    case isFalse hk =>
      refine List.nodup_cons.mpr ⟨fun hmem => ?_, ih h.2⟩
      obtain heq | hrest := mem_keys_setField.mp hmem
      · exact hk heq
      · exact h.1 hrest

/-- What is found is a field. -/
theorem mem_of_lookup (h : fields.lookup key = some v) : (key, v) ∈ fields := by
  obtain ⟨before, after, rfl, -⟩ := List.lookup_eq_some_iff.mp h
  exact List.mem_append_right before List.mem_cons_self

/-- If no key occurs twice, every field is found. -/
theorem lookup_of_mem (h : (fields.map Prod.fst).Nodup) (hmem : (key, v) ∈ fields) :
    fields.lookup key = some v := by
  induction fields with
  | nil => cases hmem
  | cons field rest ih =>
    obtain ⟨k, w⟩ := field
    rw [List.map_cons, List.nodup_cons] at h
    obtain heq | hrest := List.mem_cons.mp hmem
    · cases heq
      rw [List.lookup_cons_self]
    · have hne : key ≠ k := by
        rintro rfl
        exact h.1 (List.mem_map.mpr ⟨_, hrest, rfl⟩)
      rw [List.lookup_cons, beq_false_of_ne hne, ih h.2 hrest]

end Fields

/-! ## UTF-8 -/

/-- The UTF-8 bytes of a code point; surrogates have none. -/
def utf8Char (c : CodePoint) : Option (List UInt8) :=
  let n := c.val
  if n < 0x80 then some [.ofNat n]
  else if n < 0x800 then some [.ofNat (0xC0 + n / 64), .ofNat (0x80 + n % 64)]
  else if 0xD800 ≤ n ∧ n < 0xE000 then none
  else if n < 0x10000 then
    some [.ofNat (0xE0 + n / 4096), .ofNat (0x80 + n / 64 % 64), .ofNat (0x80 + n % 64)]
  else
    some [.ofNat (0xF0 + n / 262144), .ofNat (0x80 + n / 4096 % 64), .ofNat (0x80 + n / 64 % 64),
      .ofNat (0x80 + n % 64)]

def utf8 : Text → Option (List UInt8)
  | [] => some []
  | c :: rest => do
    let first ← utf8Char c
    let others ← utf8 rest
    some (first ++ others)

/-- A character has at least one byte. -/
theorem ne_nil_of_utf8Char {c : CodePoint} {bytes : List UInt8} (h : utf8Char c = some bytes) :
    bytes ≠ [] := by
  simp only [utf8Char] at h
  split_ifs at h <;> cases h <;> simp

/-- So has a text that is not empty. -/
theorem ne_nil_of_utf8 {t : Text} {bytes : List UInt8} (h : utf8 t = some bytes) (ht : t ≠ []) :
    bytes ≠ [] := by
  obtain ⟨c, rest, rfl⟩ := List.exists_cons_of_ne_nil ht
  simp only [utf8, Option.bind_eq_bind, Option.bind_eq_some_iff, Option.some.injEq] at h
  obtain ⟨first, hfirst, others, -, rfl⟩ := h
  exact List.append_ne_nil_of_left_ne_nil (ne_nil_of_utf8Char hfirst) _

/-- A text has at least as many bytes as characters. -/
theorem length_le_of_utf8 {t : Text} {bytes : List UInt8} (h : utf8 t = some bytes) :
    t.length ≤ bytes.length := by
  induction t generalizing bytes with
  | nil => exact Nat.zero_le _
  | cons c rest ih =>
    simp only [utf8, Option.bind_eq_bind, Option.bind_eq_some_iff, Option.some.injEq] at h
    obtain ⟨first, hfirst, others, hothers, rfl⟩ := h
    have hpos := List.length_pos_iff.mpr (ne_nil_of_utf8Char hfirst)
    have hrest := ih hothers
    rw [List.length_append, List.length_cons]
    omega

/-- Texts are encoded piece by piece. -/
theorem utf8_append_eq_some {s t : Text} {bytes : List UInt8} :
    utf8 (s ++ t) = some bytes ↔
      ∃ first others, utf8 s = some first ∧ utf8 t = some others ∧ bytes = first ++ others := by
  induction s generalizing bytes with
  | nil => simp [utf8, eq_comm]
  | cons c rest ih =>
    simp only [List.cons_append, utf8, Option.bind_eq_bind, Option.bind_eq_some_iff,
      Option.some.injEq, ih]
    constructor
    · rintro ⟨x, hx, _, ⟨y, z, hy, hz, rfl⟩, rfl⟩
      exact ⟨x ++ y, z, ⟨x, hx, y, hy, rfl⟩, hz, (List.append_assoc x y z).symm⟩
    · rintro ⟨_, z, ⟨x, hx, y, hy, rfl⟩, hz, rfl⟩
      exact ⟨x, hx, y ++ z, ⟨y, z, hy, hz, rfl⟩, (List.append_assoc x y z).symm⟩

/-- A text can be encoded if each of its characters can. -/
theorem isSome_utf8 {t : Text} : (utf8 t).isSome ↔ ∀ c ∈ t, (utf8Char c).isSome := by
  induction t with
  | nil => simp [utf8]
  | cons c rest ih =>
    rw [List.forall_mem_cons, ← ih, utf8]
    cases utf8Char c <;> cases utf8 rest <;> simp

/-- The text has a UTF-8 encoding, of at most `n` bytes. -/
def utf8Within (n : ℕ) (t : Text) : Bool :=
  match utf8 t with
  | none => false
  | some bytes => bytes.length ≤ n

/-- The limit is on the encoded text, which has to exist. -/
theorem utf8Within_iff {n : ℕ} {t : Text} :
    utf8Within n t ↔ ∃ bytes, utf8 t = some bytes ∧ bytes.length ≤ n := by
  rw [utf8Within]
  cases utf8 t <;> simp

/-! ## Escapes -/

/-- The four lower-case hexadecimal digits of `n`. -/
def hex4 (n : ℕ) : List UInt8 :=
  [n / 4096 % 16, n / 256 % 16, n / 16 % 16, n % 16].map fun d =>
    if d < 10 then .ofNat (0x30 + d) else .ofNat (0x61 + (d - 10))

def unicodeEscape (n : ℕ) : List UInt8 := asciiBytes "\\u" ++ hex4 n

def escape (c : CodePoint) : List UInt8 :=
  let n := c.val
  if n = 0x5C then asciiBytes "\\\\"
  else if n = 0x22 then asciiBytes "\\\""
  else if n = 0x08 then asciiBytes "\\b"
  else if n = 0x0C then asciiBytes "\\f"
  else if n = 0x0A then asciiBytes "\\n"
  else if n = 0x0D then asciiBytes "\\r"
  else if n = 0x09 then asciiBytes "\\t"
  else if 0x20 ≤ n ∧ n ≤ 0x7E then [.ofNat n]
  else if n < 0x10000 then unicodeEscape n
  else
    -- a pair of surrogates
    unicodeEscape (0xD800 + (n - 0x10000) / 1024) ++ unicodeEscape (0xDC00 + (n - 0x10000) % 1024)

def quote (t : Text) : List UInt8 := asciiBytes "\"" ++ t.flatMap escape ++ asciiBytes "\""

/-- A choice is as long as its branches at most. -/
theorem length_ite_le {p : Prop} [Decidable p] {a b : List UInt8} {k : ℕ}
    (ha : p → a.length ≤ k) (hb : ¬p → b.length ≤ k) : (if p then a else b).length ≤ k := by
  by_cases hp : p
  · rw [if_pos hp]
    exact ha hp
  · rw [if_neg hp]
    exact hb hp

/-- An escaped character has at most 12 bytes, those of a surrogate pair. -/
theorem length_escape_le (c : CodePoint) : (escape c).length ≤ 12 := by
  unfold escape
  -- the lengths of all the texts are numerals
  iterate 9 refine length_ite_le (fun _ => Nat.le_of_ble_eq_true rfl) fun _ => ?_
  exact le_rfl

/-- So a quoted text has at most 12 bytes for each character and two quotes. -/
theorem length_quote_le (t : Text) : (quote t).length ≤ 12 * t.length + 2 := by
  have hflat : (t.flatMap escape).length ≤ 12 * t.length := by
    induction t with
    | nil => exact le_rfl
    | cons c rest ih =>
      have hc := length_escape_le c
      rw [List.flatMap_cons, List.length_append, List.length_cons]
      omega
  rw [quote, List.length_append, List.length_append]
  have hquote : (asciiBytes "\"").length = 1 := rfl
  omega

/-- A control character that has no escape of two bytes: one byte in UTF-8, and six in JSON. -/
def isLongControl (c : CodePoint) : Bool :=
  c.val = 0x7F ∨ c.val < 0x20 ∧ c.val ∉ [0x08, 0x09, 0x0A, 0x0C, 0x0D]

/-- A character of the basic plane has at most 6 bytes. -/
theorem length_escape_of_lt {c : CodePoint} (h : c.val < 0x10000) : (escape c).length ≤ 6 := by
  unfold escape
  iterate 8 refine length_ite_le (fun _ => Nat.le_of_ble_eq_true rfl) fun _ => ?_
  rw [if_pos h]
  exact le_rfl

/-- An ASCII character has at most 2, unless it is a control character with a long escape. -/
theorem length_escape_of_ascii {c : CodePoint} (h : c.val < 0x80) (hlong : ¬isLongControl c) :
    (escape c).length ≤ 2 := by
  rw [isLongControl, decide_eq_true_eq] at hlong
  simp only [List.mem_cons, List.not_mem_nil, or_false] at hlong
  unfold escape
  iterate 8 refine length_ite_le (fun _ => Nat.le_of_ble_eq_true rfl) fun _ => ?_
  -- none of the escapes of two bytes, and not printable
  omega

/-- Other characters become at most three times as long. -/
theorem length_escape_le_utf8Char {c : CodePoint} {bytes : List UInt8}
    (h : utf8Char c = some bytes) :
    (escape c).length ≤ 3 * bytes.length + if isLongControl c then 3 else 0 := by
  by_cases hascii : c.val < 0x80
  · have hlength : bytes.length = 1 := by
      simp only [utf8Char, if_pos hascii, Option.some.injEq] at h
      rw [← h, List.length_singleton]
    split_ifs with hlong
    · have hescape := length_escape_of_lt (c := c) (by omega)
      omega
    · have hescape := length_escape_of_ascii hascii hlong
      omega
  · simp only [utf8Char, if_neg hascii] at h
    by_cases hbmp : c.val < 0x10000
    · have hescape := length_escape_of_lt hbmp
      have hlength : 2 ≤ bytes.length := by
        split_ifs at h <;> cases h <;> exact Nat.le_of_ble_eq_true rfl
      omega
    · have hescape := length_escape_le c
      have hlength : bytes.length = 4 := by
        rw [if_neg (by omega), if_neg (by omega), if_neg hbmp, Option.some.injEq] at h
        rw [← h]
        rfl
      omega

/-- A quoted text is bounded by its UTF-8 bytes and its long control characters. -/
theorem length_quote_le_utf8 {t : Text} {bytes : List UInt8} (h : utf8 t = some bytes) :
    (quote t).length ≤ 3 * bytes.length + 3 * t.countP isLongControl + 2 := by
  have hflat : (t.flatMap escape).length ≤ 3 * bytes.length + 3 * t.countP isLongControl := by
    induction t generalizing bytes with
    | nil => exact Nat.zero_le _
    | cons c rest ih =>
      simp only [utf8, Option.bind_eq_bind, Option.bind_eq_some_iff, Option.some.injEq] at h
      obtain ⟨first, hfirst, others, hothers, rfl⟩ := h
      have hc := length_escape_le_utf8Char hfirst
      have hrest := ih hothers
      rw [List.flatMap_cons, List.length_append, List.length_append, List.countP_cons]
      split_ifs at hc ⊢ <;> omega
  have hquote : (asciiBytes "\"").length = 1 := rfl
  rw [quote, List.length_append, List.length_append]
  omega

/-! ## Values -/

/-- The items of an array or object, with the brackets around them. -/
def enclose (opening closing : String) (items : List (List UInt8)) : List UInt8 :=
  asciiBytes opening ++ (asciiBytes ",").intercalate items ++ asciiBytes closing

/-- A field of an object. -/
def fieldText (field : Text × List UInt8) : List UInt8 :=
  quote field.1 ++ asciiBytes ":" ++ field.2

/-- A field is its key, a colon and its value. -/
theorem length_fieldText (field : Text × List UInt8) :
    (fieldText field).length = (quote field.1).length + field.2.length + 1 := by
  have hcolon : (asciiBytes ":").length = 1 := rfl
  rw [fieldText, List.length_append, List.length_append, hcolon]
  omega

mutual

def Value.dumps : Value → List UInt8
  | .null => asciiBytes "null"
  | .bool b => if b then asciiBytes "true" else asciiBytes "false"
  | .int n => asciiBytes (toString n)
  | .float text => text
  | .str s => quote s
  | .arr items => enclose "[" "]" (dumpsItems items)
  | .obj fields =>
    enclose "\x7b" "\x7d"
      (((dumpsFields fields).insertionSort fun a b => a.1 ≤ b.1).map fieldText)

def dumpsItems : List Value → List (List UInt8)
  | [] => []
  | v :: rest => v.dumps :: dumpsItems rest

def dumpsFields : List (Text × Value) → List (Text × List UInt8)
  | [] => []
  | (key, v) :: rest => (key, v.dumps) :: dumpsFields rest

end

/-! ## The length of an object -/

/-- The fields of an object are dumped one by one. -/
theorem dumpsFields_eq_map (fields : List (Text × Value)) :
    dumpsFields fields = fields.map fun field => (field.1, field.2.dumps) := by
  induction fields with
  | nil => rfl
  | cons field rest ih => rw [dumpsFields, ih, List.map_cons]

/-- Each item but one comes with a comma. -/
theorem length_intercalate_comma {items : List (List UInt8)} (h : items ≠ []) :
    ((asciiBytes ",").intercalate items).length + 1 =
      (items.map fun item => item.length + 1).sum := by
  induction items with
  | nil => exact absurd rfl h
  | cons item rest ih =>
    cases rest with
    | nil => simp [List.intercalate_singleton]
    | cons item' rest =>
      have hcomma : (asciiBytes ",").length = 1 := rfl
      have hrest := ih (by simp)
      rw [List.intercalate_cons_cons, List.length_append, List.length_append, List.map_cons,
        List.sum_cons, hcomma, ← hrest]
      omega

/-- The order of the fields does not matter for the length. -/
theorem length_dumps_obj {fields : List (Text × Value)} (h : fields ≠ []) :
    (Value.obj fields).dumps.length =
      (fields.map fun field => (quote field.1).length + field.2.dumps.length + 2).sum + 1 := by
  generalize hsorted : (dumpsFields fields).insertionSort (fun a b => a.1 ≤ b.1) = sorted
  have hperm : sorted.Perm (fields.map fun field => (field.1, field.2.dumps)) := by
    rw [← hsorted, ← dumpsFields_eq_map]
    exact List.perm_insertionSort _ _
  have hne : sorted.map fieldText ≠ [] := by
    rw [ne_eq, List.map_eq_nil_iff, ← List.length_eq_zero_iff, hperm.length_eq, List.length_map,
      List.length_eq_zero_iff]
    exact h
  have hitems := (hperm.map fun field => (fieldText field).length + 1).sum_nat
  have hjoin := length_intercalate_comma hne
  rw [List.map_map] at hjoin hitems
  have hsum := hjoin.trans hitems
  simp only [length_fieldText, Function.comp_def] at hsum
  rw [Value.dumps, hsorted, enclose, List.length_append, List.length_append, ← hsum]
  have hbraces : (asciiBytes "\x7b").length = 1 ∧ (asciiBytes "\x7d").length = 1 := ⟨rfl, rfl⟩
  omega

/-- The text of an object is no longer than if it had all the fields that it may have, each with the
longest value. -/
theorem length_dumps_obj_le {fields : List (Text × Value)} {keys : List Text} (bound : Text → ℕ)
    (hne : fields ≠ []) (hnodup : (fields.map Prod.fst).Nodup)
    (hkeys : ∀ key ∈ fields.map Prod.fst, key ∈ keys)
    (hbound : ∀ key v, fields.lookup key = some v → v.dumps.length ≤ bound key) :
    (Value.obj fields).dumps.length ≤
      (keys.map fun key => (quote key).length + bound key + 2).sum + 1 := by
  rw [length_dumps_obj hne]
  refine Nat.add_le_add_right ?_ 1
  obtain ⟨chosen, hperm, hsub⟩ := List.subperm_of_subset hnodup hkeys
  calc (fields.map fun field => (quote field.1).length + field.2.dumps.length + 2).sum
    _ ≤ (fields.map fun field => (quote field.1).length + bound field.1 + 2).sum := by
      refine List.sum_le_sum fun field hfield => ?_
      have hvalue := hbound field.1 field.2 (lookup_of_mem hnodup hfield)
      omega
    _ = ((fields.map Prod.fst).map fun key => (quote key).length + bound key + 2).sum := by
      rw [List.map_map]
      rfl
    _ = (chosen.map fun key => (quote key).length + bound key + 2).sum :=
      ((hperm.map _).sum_nat).symm
    _ ≤ (keys.map fun key => (quote key).length + bound key + 2).sum :=
      (hsub.map _).sum_le_sum fun _ _ => Nat.zero_le _

end JsonText
