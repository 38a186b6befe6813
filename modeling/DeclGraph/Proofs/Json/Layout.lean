import DeclGraph.Proofs.Json.Reading

/-!
# Indented documents are read back

`parse_renderIndented` says that the indented text of a value is parsed as that value, with the
entries of every object in their order.  The value may hold no floating-point numbers, whole
numbers within the limit of digits, and objects with different names (`Json.IsPlain`).  At every
level the text of a value is read as the value (`reads_renderAt`): the lines of an array or object
are a row with a line break behind every comma (`toList_renderItemsAt`, `toList_renderEntriesAt`).
Only printable ASCII characters and line feeds stand in such a text (`isAscii_renderAt`).
-/

namespace DeclGraph

namespace Json

open Reader

/-- A value without floating-point numbers, whose whole numbers are within the limit of digits and
whose objects have different names. -/
inductive IsPlain : Json → Prop
  | null : IsPlain .null
  | bool (b : Bool) : IsPlain (.bool b)
  | int {n : Int} (h : (Nat.toDigits 10 n.natAbs).length ≤ digitLimit) : IsPlain (.int n)
  | string (s : String) : IsPlain (.string s)
  | array {items : List Json} (h : ∀ v ∈ items, IsPlain v) : IsPlain (.array items)
  | object {entries : List (String × Json)} (hnames : (Entries.keys entries).Nodup)
      (h : ∀ e ∈ entries, IsPlain e.2) : IsPlain (.object entries)

theorem isBlank_lineBreak (level : Nat) : IsBlank (lineBreak level).toList := by
  intro c hc
  rw [lineBreak, String.toList_ofList, List.mem_cons] at hc
  rcases hc with rfl | hc
  · decide
  · rw [List.eq_of_mem_replicate hc]; decide

theorem toList_quoteAscii (s : String) : (quoteAscii s).toList = quoted escapeCharAscii s := by
  rw [quoteAscii, String.toList_ofList, quoted]

/-- The lines of an array are a row of the texts of its items. -/
theorem toList_renderItemsAt (level : Nat) (items : List Json) :
    (renderItemsAt level items).toList
      = row (lineBreak level).toList (items.map fun v => (renderAt level v).toList) := by
  induction items with
  | nil => rfl
  | cons v rest ih =>
    cases rest with
    | nil => rw [renderItemsAt, List.map_cons, List.map_nil, row_singleton]
    | cons w rest =>
      rw [List.map_cons] at ih
      rw [renderItemsAt, List.map_cons, List.map_cons, row_cons_cons, ← ih]
      simp

/-- An entry on a line of an object. -/
def lineOf (level : Nat) (e : String × Json) : Part := ⟨e.1, (renderAt level e.2).toList, e.2⟩

/-- The lines of an object are a row of the texts of its entries. -/
theorem toList_renderEntriesAt (level : Nat) (entries : List (String × Json)) :
    (renderEntriesAt level entries).toList
      = row (lineBreak level).toList
          ((entries.map (lineOf level)).map (Part.spelled escapeCharAscii [' '])) := by
  have hline (k : String) (v : Json) : (quoteAscii k ++ ": " ++ renderAt level v).toList
      = (lineOf level (k, v)).spelled escapeCharAscii [' '] := by
    simp [toList_quoteAscii, Part.spelled, lineOf]
  induction entries with
  | nil => rfl
  | cons e rest ih =>
    obtain ⟨k, v⟩ := e
    cases rest with
    | nil =>
      rw [renderEntriesAt, hline, List.map_cons, List.map_cons, List.map_nil, List.map_nil,
        row_singleton]
    | cons f rest =>
      rw [List.map_cons, List.map_cons] at ih
      rw [renderEntriesAt, String.toList_append, String.toList_append, String.toList_append, hline,
        ih, List.map_cons, List.map_cons, List.map_cons, List.map_cons, row_cons_cons]
      simp

/-- The text of an array with items: its lines between brackets. -/
theorem toList_renderAt_array (level : Nat) {items : List Json} (h : items ≠ []) :
    (renderAt level (.array items)).toList
      = '[' :: ((lineBreak (level + 1)).toList
        ++ row (lineBreak (level + 1)).toList
          (items.map fun v => (renderAt (level + 1) v).toList)
        ++ (lineBreak level).toList ++ [']']) := by
  obtain ⟨v, rest, rfl⟩ := List.exists_cons_of_ne_nil h
  rw [renderAt]
  simp only [String.toList_append, toList_renderItemsAt]
  rfl

/-- The text of an object with entries: its lines between braces. -/
theorem toList_renderAt_object (level : Nat) {entries : List (String × Json)} (h : entries ≠ []) :
    (renderAt level (.object entries)).toList
      = '{' :: ((lineBreak (level + 1)).toList
        ++ row (lineBreak (level + 1)).toList
          ((entries.map (lineOf (level + 1))).map (Part.spelled escapeCharAscii [' ']))
        ++ (lineBreak level).toList ++ ['}']) := by
  obtain ⟨e, rest, rfl⟩ := List.exists_cons_of_ne_nil h
  rw [renderAt]
  simp only [String.toList_append, toList_renderEntriesAt]
  rfl

/-- The text of a value at a level of indentation is read as that value. -/
theorem reads_renderAt {v : Json} (h : v.IsPlain) (level : Nat) :
    Reads (renderAt level v).toList v := by
  have hnone : IsBlank [] := by simp [IsBlank]
  induction h generalizing level with
  | null => rw [renderAt]; exact reads_null
  | bool b => rw [renderAt]; exact reads_bool b
  | int h => rw [renderAt]; exact reads_int h
  | string s =>
    rw [renderAt, toList_quoteAscii]
    exact reads_string standsFor_escapeCharAscii s
  | @array items h ih =>
    -- an array without items has no lines of its own, and no blanks inside
    rcases eq_or_ne items [] with rfl | hne
    · rw [renderAt]
      exact @reads_array [] [] [] hnone hnone hnone [] (by simp)
    have hparts : ∀ p ∈ items.map fun v => ((renderAt (level + 1) v).toList, v),
        Reads p.1 p.2 := by
      intro p hp
      obtain ⟨v, hv, rfl⟩ := List.mem_map.1 hp
      exact ih v hv (level + 1)
    have hread := reads_array (isBlank_lineBreak (level + 1)) (isBlank_lineBreak (level + 1))
      (isBlank_lineBreak level) hparts
    rw [toList_renderAt_array level hne]
    simpa [Function.comp_def] using hread
  | @object entries hnames h ih =>
    rcases eq_or_ne entries [] with rfl | hne
    · rw [renderAt]
      exact @reads_object _ standsFor_escapeCharAscii [] hnone [] [] [] hnone hnone hnone []
        (by simp) (by simp)
    have hparts : ∀ p ∈ entries.map (lineOf (level + 1)), Reads p.text p.value := by
      intro p hp
      obtain ⟨e, he, rfl⟩ := List.mem_map.1 hp
      exact ih e he (level + 1)
    have hgap : IsBlank [' '] := by simp [IsBlank, isSpace]
    have hread := reads_object standsFor_escapeCharAscii hgap (isBlank_lineBreak (level + 1))
      (isBlank_lineBreak (level + 1)) (isBlank_lineBreak level) hparts
      (by simpa [lineOf, Entries.keys, Function.comp_def] using hnames)
    rw [toList_renderAt_object level hne]
    simpa [Function.comp_def, lineOf] using hread

/-- The indented text of a value is parsed as that value. -/
theorem parse_renderIndented {v : Json} (h : v.IsPlain) : parse v.renderIndented = .ok v :=
  parse_of_reads (reads_renderAt h 0)

/-! ### The characters of documents -/

/-- A printable ASCII character or a line feed. -/
def isAscii (c : Char) : Bool := c == '\n' || (0x20 ≤ c.toNat && c.toNat < 0x7F)

theorem isAscii_of_le {c : Char} (hlow : 0x20 ≤ c.toNat) (hhigh : c.toNat < 0x7F) :
    isAscii c = true := by
  simp [isAscii, hlow, hhigh]

theorem isAscii_digitChar {n : Nat} (h : n < 16) : isAscii (Nat.digitChar n) = true := by
  have hall : ∀ m : Fin 16, isAscii (Nat.digitChar m) = true := by decide
  exact hall ⟨n, h⟩

theorem isAscii_unitEscape {n : Nat} (h : n < 0x10000) : ∀ c ∈ unitEscape n, isAscii c = true := by
  rw [unitEscape_eq h]
  simp only [List.mem_cons, List.not_mem_nil, or_false, forall_eq_or_imp, forall_eq]
  exact ⟨by decide, by decide, isAscii_digitChar (by omega), isAscii_digitChar (by omega),
    isAscii_digitChar (by omega), isAscii_digitChar (by omega)⟩

theorem isAscii_controlEscape {x : Char} {text : List Char} (h : controlEscape? x = some text) :
    ∀ c ∈ text, isAscii c = true := by
  unfold controlEscape? at h
  split_ifs at h <;> cases h
  iterate 7 simp [isAscii]
  exact isAscii_unitEscape (by omega)

/-- A character that has no escape in every document is no control. -/
theorem le_toNat_of_controlEscape {x : Char} (h : controlEscape? x = none) : 0x20 ≤ x.toNat := by
  unfold controlEscape? at h
  split_ifs at h with h₁ h₂ h₃ h₄ h₅ h₆ h₇ h₈
  omega

theorem isAscii_escapeCharAscii (x : Char) : ∀ c ∈ escapeCharAscii x, isAscii c = true := by
  have hvalid : x.toNat < 0xD800 ∨ 0xDFFF < x.toNat ∧ x.toNat < 0x110000 := x.valid
  unfold escapeCharAscii
  split
  · next text htext => exact isAscii_controlEscape htext
  · next hnone =>
    have hlow := le_toNat_of_controlEscape hnone
    simp only []
    split_ifs with h₁ h₂
    · exact List.forall_mem_singleton.2 (isAscii_of_le hlow h₁)
    · exact isAscii_unitEscape h₂
    · exact List.forall_mem_append.2 ⟨isAscii_unitEscape (by omega), isAscii_unitEscape (by omega)⟩

theorem isAscii_quoted (s : String) : ∀ c ∈ quoted escapeCharAscii s, isAscii c = true := by
  rw [quoted, List.forall_mem_append, List.forall_mem_cons, List.forall_mem_singleton]
  refine ⟨⟨by decide, fun c hc => ?_⟩, by decide⟩
  obtain ⟨x, -, hx⟩ := List.mem_flatMap.1 hc
  exact isAscii_escapeCharAscii x c hx

theorem isAscii_lineBreak (level : Nat) : ∀ c ∈ (lineBreak level).toList, isAscii c = true := by
  rw [lineBreak, String.toList_ofList, List.forall_mem_cons]
  exact ⟨by decide, fun c hc => by rw [List.eq_of_mem_replicate hc]; decide⟩

theorem isAscii_ofInt (n : Int) : ∀ c ∈ (Number.ofInt n).toList, isAscii c = true := by
  have hdigits : ∀ c ∈ Nat.toDigits 10 n.natAbs, isAscii c = true := fun c hc => by
    have hc := Nat.isDigit_of_mem_toDigits (by omega) (by omega) hc
    simp only [Char.isDigit, Bool.and_eq_true, decide_eq_true_eq, ge_iff_le, UInt32.le_iff_toNat_le]
      at hc
    have hlow : 48 ≤ c.toNat := hc.1
    have hhigh : c.toNat ≤ 57 := hc.2
    exact isAscii_of_le (by omega) (by omega)
  rw [Number.ofInt, Number.digits]
  split_ifs
  · rw [String.toList_append, String.toList_ofList (l := Nat.toDigits 10 n.natAbs)]
    exact List.forall_mem_append.2 ⟨by simp [isAscii], hdigits⟩
  · rwa [String.toList_ofList]

/-- The text of a value is ASCII without controls other than line feeds. -/
theorem isAscii_renderAt {v : Json} (h : v.IsPlain) (level : Nat) :
    ∀ c ∈ (renderAt level v).toList, isAscii c = true := by
  induction h generalizing level with
  | null => rw [renderAt]; simp [isAscii]
  | bool b =>
    rw [renderAt]
    cases b with
    | true => simp [isAscii]
    | false => simp [isAscii]
  | int h => rw [renderAt]; exact isAscii_ofInt _
  | string s => rw [renderAt, toList_quoteAscii]; exact isAscii_quoted s
  -- brackets, line breaks and commas are ASCII; the rest is so by induction
  | @array items h ih =>
    rcases eq_or_ne items [] with rfl | hne
    · rw [renderAt]; simp [isAscii]
    rw [toList_renderAt_array level hne]
    rw [List.forall_mem_cons, List.forall_mem_append, List.forall_mem_append,
      List.forall_mem_append, List.forall_mem_singleton]
    refine ⟨by decide, ⟨⟨isAscii_lineBreak _, forall_mem_row (by decide) (isAscii_lineBreak _) ?_⟩,
      isAscii_lineBreak _⟩, by decide⟩
    exact List.forall_mem_map.2 fun v hv => ih v hv (level + 1)
  | @object entries hnames h ih =>
    rcases eq_or_ne entries [] with rfl | hne
    · rw [renderAt]; simp [isAscii]
    rw [toList_renderAt_object level hne]
    rw [List.forall_mem_cons, List.forall_mem_append, List.forall_mem_append,
      List.forall_mem_append, List.forall_mem_singleton]
    refine ⟨by decide, ⟨⟨isAscii_lineBreak _, forall_mem_row (by decide) (isAscii_lineBreak _) ?_⟩,
      isAscii_lineBreak _⟩, by decide⟩
    refine List.forall_mem_map.2 (List.forall_mem_map.2 fun e he => ?_)
    rw [Part.spelled, List.forall_mem_append, List.forall_mem_cons, List.forall_mem_append,
      List.forall_mem_singleton]
    exact ⟨isAscii_quoted e.1, by decide, by decide, ih e he (level + 1)⟩

/-- The indented text of a value holds no carriage return. -/
theorem return_notMem_renderIndented {v : Json} (h : v.IsPlain) :
    '\r' ∉ v.renderIndented.toList := fun hmem =>
  absurd (isAscii_renderAt h 0 _ hmem) (by decide)

end Json

end DeclGraph
