import DeclGraph.Proofs.Json.Escape
import DeclGraph.Proofs.Entries

/-!
# Texts that are read as values

A text is read as a value (`Reader.Reads`) if the reader takes it off wherever a delimiter or the
end follows it.  Each kind of value has its text: the words (`reads_null`, `reads_bool`), whole
numbers within the limit of digits (`reads_int`), strings whose characters are spelled by texts
that stand for them (`reads_string`), and the texts of parts with commas between them and any
blanks around (`reads_array`, `reads_object`).  `document_of_reads` says the same of whole
documents.
-/

namespace DeclGraph

namespace Json

namespace Reader

/-! ### Blanks and delimiters -/

/-- A text of blanks. -/
def IsBlank (cs : List Char) : Prop := ∀ c ∈ cs, isSpace c = true

/-- Whether a character may stand right behind a value. -/
def isDelimiter (c : Char) : Bool := isSpace c || c == ',' || c == ']' || c == '}'

/-- What may stand behind a value: nothing, or a text that begins with a delimiter. -/
def Delimited (rest : List Char) : Prop := ∀ c ∈ rest.head?, isDelimiter c = true

theorem delimited_cons {c : Char} (h : isDelimiter c = true) (rest : List Char) :
    Delimited (c :: rest) := by
  intro d hd
  rw [List.head?_cons, Option.mem_some] at hd
  exact hd ▸ h

/-- Behind blanks a delimiter may follow. -/
theorem Delimited.blank {blank rest : List Char} (hblank : IsBlank blank) (h : Delimited rest) :
    Delimited (blank ++ rest) := by
  cases blank with
  | nil => exact h
  | cons c blank =>
    refine delimited_cons ?_ _
    simp [isDelimiter, hblank c List.mem_cons_self]

/-- Blanks at the start of a text are passed over. -/
theorem skip_blank {blank : List Char} (h : IsBlank blank) (rest : List Char) :
    skip (blank ++ rest) = skip rest :=
  List.dropWhile_append_of_pos h

/-- A text that begins with no blank is left as it is. -/
theorem skip_cons {c : Char} (h : isSpace c = false) (rest : List Char) :
    skip (c :: rest) = c :: rest := by
  rw [skip, List.dropWhile_cons_of_neg (by simp [h])]

/-! ### Texts of values -/

/-- The text `cs` is read as `v` wherever a delimiter or the end follows it.  It begins with a
character that neither is a blank nor closes an array. -/
structure Reads (cs : List Char) (v : Json) : Prop where
  /-- How the text begins. -/
  head : ∃ c tail, cs = c :: tail ∧ isSpace c = false ∧ c ≠ ']'
  /-- What the reader makes of it. -/
  value_eq : ∀ fuel rest, cs.length ≤ fuel → Delimited rest → value fuel (cs ++ rest) = .ok (v, rest)

/-- Blanks in front of a text that is read as a value are passed over. -/
theorem Reads.skip_append {cs : List Char} {v : Json} (h : Reads cs v) (rest : List Char) :
    skip (cs ++ rest) = cs ++ rest := by
  obtain ⟨c, tail, rfl, hc, -⟩ := h.head
  exact skip_cons hc _

theorem Reads.length_pos {cs : List Char} {v : Json} (h : Reads cs v) : 0 < cs.length := by
  obtain ⟨c, tail, rfl, -⟩ := h.head
  exact Nat.succ_pos _

/-- A text that begins no string, array or object is read as the word or number that it is. -/
theorem reads_of_atom {c : Char} {tail : List Char} {v : Json} (hspace : isSpace c = false)
    (hquote : c ≠ '"') (hbracket : c ≠ '[') (hclosing : c ≠ ']') (hbrace : c ≠ '\x7b')
    (hatom : ∀ rest, Delimited rest → atom (c :: tail ++ rest) = .ok (v, rest)) :
    Reads (c :: tail) v := by
  refine ⟨⟨c, tail, rfl, hspace, hclosing⟩, fun fuel rest hfuel hrest => ?_⟩
  obtain ⟨fuel, rfl⟩ : ∃ k, fuel = k + 1 := ⟨fuel - 1, by rw [List.length_cons] at hfuel; omega⟩
  rw [← hatom rest hrest, List.cons_append]
  exact value.eq_5 _ _ (fun _ h => hquote (List.cons.inj h).1)
    (fun _ h => hbracket (List.cons.inj h).1) (fun _ h => hbrace (List.cons.inj h).1)

theorem reads_null : Reads ['n', 'u', 'l', 'l'] .null :=
  reads_of_atom (by decide) (by decide) (by decide) (by decide) (by decide) fun _ _ => rfl

theorem reads_bool (b : Bool) : Reads (if b then "true" else "false").toList (.bool b) := by
  cases b with
  | true =>
    exact reads_of_atom (by decide) (by decide) (by decide) (by decide) (by decide) fun _ _ => rfl
  | false =>
    exact reads_of_atom (by decide) (by decide) (by decide) (by decide) (by decide) fun _ _ => rfl

/-! ### Whole numbers -/

/-- What may stand behind a value goes on with no number. -/
theorem Delimited.ends_number {rest : List Char} (h : Delimited rest) :
    rest.takeWhile isDigit = [] ∧ rest.dropWhile isDigit = rest ∧ fraction? rest = none
      ∧ exponent? rest = none := by
  cases rest with
  | nil => exact ⟨rfl, rfl, rfl, rfl⟩
  | cons c rest =>
    have hc : isDelimiter c = true := h c rfl
    have hcases : c = ' ' ∨ c = '\t' ∨ c = '\n' ∨ c = '\r' ∨ c = ',' ∨ c = ']' ∨ c = '}' := by
      simpa [isDelimiter, isSpace, or_assoc] using hc
    rcases hcases with rfl | rfl | rfl | rfl | rfl | rfl | rfl <;> exact ⟨rfl, rfl, rfl, rfl⟩

/-- The digits of a number are the digits of its text. -/
theorem digits_toDigits (m : Nat) {rest : List Char} (h : Delimited rest) :
    digits (Nat.toDigits 10 m ++ rest)
      = ((Nat.toDigits 10 m).map fun c => c.toNat - '0'.toNat, rest) := by
  obtain ⟨htake, hdrop, -⟩ := h.ends_number
  have hdigit : ∀ c ∈ Nat.toDigits 10 m, isDigit c = true := fun c hc => by
    have := Nat.isDigit_of_mem_toDigits (by omega) (by omega) hc
    simpa [isDigit, Char.isDigit, Char.le_def] using this
  rw [digits, List.takeWhile_append_of_pos hdigit, List.dropWhile_append_of_pos hdigit, htake,
    hdrop, List.append_nil]

/-- The value of the digits of a number is the number. -/
theorem value_toDigits (m : Nat) :
    Numeral.value 0 ((Nat.toDigits 10 m).map fun c => c.toNat - '0'.toNat) = m := by
  rw [Numeral.value, List.foldl_map]
  exact Nat.ofDigitChars_eq_foldl.symm.trans (Nat.ofDigitChars_toDigits (by omega) (by omega))

/-- A number begins with a digit, which is a zero only where the number is zero. -/
theorem exists_toDigits_eq_cons (m : Nat) :
    ∃ c tail, Nat.toDigits 10 m = c :: tail ∧ isDigit c = true ∧ (0 < m → c ≠ '0') := by
  induction m using Nat.strongRecOn with
  | ind m ih =>
    rcases Nat.lt_or_ge m 10 with hm | hm
    · refine ⟨Nat.digitChar m, [], Nat.toDigits_of_lt_base hm, ?_, fun hpos => ?_⟩
      · have hall : ∀ k : Fin 10, isDigit (Nat.digitChar k) = true := by decide
        exact hall ⟨m, hm⟩
      · exact fun hzero => by rw [Nat.digitChar_eq_zero] at hzero; omega
    · obtain ⟨c, tail, heq, hdigit, hne⟩ := ih (m / 10) (by omega)
      refine ⟨c, tail ++ [Nat.digitChar (m % 10)], ?_, hdigit, fun _ => hne (by omega)⟩
      rw [Nat.toDigits_of_base_le (by omega) hm, heq, List.cons_append]

/-- Behind the digits of a whole number nothing more is read of it. -/
theorem numberTail_of_delimited {rest : List Char} (h : Delimited rest) (whole : List Nat)
    (hwhole : whole.length ≤ digitLimit) (start : List Char) (negative : Bool) :
    numberTail start negative whole rest
      = .ok (.int (if negative then -(Numeral.value 0 whole : Int) else Numeral.value 0 whole),
          rest) := by
  obtain ⟨-, -, hfraction, hexponent⟩ := h.ends_number
  simp [numberTail, hfraction, hexponent, Nat.not_lt.2 hwhole]

/-- What is read behind the sign of a number that begins at `start`. -/
def unsigned (start : List Char) (negative : Bool) (s : List Char) : Step Json :=
  match s with
  | '0' :: rest => numberTail start negative [0] rest
  | c :: _ =>
    if isDigit c then
      let (whole, rest) := digits s
      numberTail start negative whole rest
    else .error ⟨.expectingValue, start⟩
  | [] => .error ⟨.expectingValue, start⟩

theorem number_minus (s : List Char) : number ('-' :: s) = unsigned ('-' :: s) true s := rfl

theorem number_of_ne_minus {c : Char} (h : c ≠ '-') (tail : List Char) :
    number (c :: tail) = unsigned (c :: tail) false (c :: tail) := by
  unfold number
  split
  next negative s heq =>
    split at heq
    · next hstart => exact absurd (List.cons.inj hstart).1 h
    · cases heq; rfl

/-- The digits of a natural number are read as that number. -/
theorem unsigned_toDigits {m : Nat} (hm : (Nat.toDigits 10 m).length ≤ digitLimit)
    {rest : List Char} (h : Delimited rest) (start : List Char) (negative : Bool) :
    unsigned start negative (Nat.toDigits 10 m ++ rest)
      = .ok (.int (if negative then -(m : Int) else m), rest) := by
  rcases Nat.eq_zero_or_pos m with rfl | hpos
  · exact numberTail_of_delimited h [0] (by decide) start negative
  · obtain ⟨c, tail, heq, hdigit, hne⟩ := exists_toDigits_eq_cons m
    have hdigits := digits_toDigits m h
    have htail := numberTail_of_delimited h
      ((Nat.toDigits 10 m).map fun c => c.toNat - '0'.toNat) (by simpa using hm) start negative
    rw [value_toDigits] at htail
    rw [heq, List.cons_append] at hdigits ⊢
    rw [unsigned.eq_2 _ _ _ _ (fun hzero => hne hpos hzero), if_pos hdigit, hdigits]
    exact heq ▸ htail

/-- A digit is no letter and no sign. -/
theorem ne_of_isDigit {c d : Char} (hc : isDigit c = true) (hd : isDigit d = false) : c ≠ d := by
  rintro rfl
  rw [hc] at hd
  exact Bool.noConfusion hd

/-- No word begins with a digit. -/
theorem findSome?_words_of_digit {c : Char} (h : isDigit c = true) (tail : List Char) :
    words.findSome? (fun (word, v) => (behind? word (c :: tail)).map fun rest => (v, rest))
      = none := by
  have hne (d : Char) (hd : isDigit d = false) : d ≠ c := (ne_of_isDigit h hd).symm
  simp [words, behind?, hne 'n' rfl, hne 't' rfl, hne 'f' rfl, hne 'N' rfl, hne 'I' rfl,
    hne '-' rfl]

/-- No word begins with a minus and a digit. -/
theorem findSome?_words_of_minus {c : Char} (h : isDigit c = true) (tail : List Char) :
    words.findSome? (fun (word, v) => (behind? word ('-' :: c :: tail)).map fun rest => (v, rest))
      = none := by
  have hne : 'I' ≠ c := (ne_of_isDigit h rfl).symm
  simp [words, behind?, hne]

theorem atom_of_digit {c : Char} (h : isDigit c = true) (tail : List Char) :
    atom (c :: tail) = number (c :: tail) := by
  rw [atom, findSome?_words_of_digit h]

theorem atom_of_minus {c : Char} (h : isDigit c = true) (tail : List Char) :
    atom ('-' :: c :: tail) = number ('-' :: c :: tail) := by
  rw [atom, findSome?_words_of_minus h]

/-- A whole number is read as itself. -/
theorem reads_int {n : Int} (h : (Nat.toDigits 10 n.natAbs).length ≤ digitLimit) :
    Reads (Number.ofInt n).toList (.int n) := by
  obtain ⟨c, tail, heq, hdigit, -⟩ := exists_toDigits_eq_cons n.natAbs
  have hne {d : Char} (hd : isDigit d = false) : c ≠ d := ne_of_isDigit hdigit hd
  rw [Number.ofInt, Number.digits]
  -- a minus stands in front of the digits just if the number is negative
  split_ifs with hn
  · have htext : ("-" ++ String.ofList (Nat.toDigits 10 n.natAbs)).toList
        = '-' :: Nat.toDigits 10 n.natAbs := by simp
    rw [htext, heq]
    refine reads_of_atom (by decide) (by decide) (by decide) (by decide) (by decide) ?_
    intro rest hrest
    have hread := unsigned_toDigits h hrest ('-' :: (Nat.toDigits 10 n.natAbs ++ rest)) true
    rw [← number_minus, heq] at hread
    rw [List.cons_append, List.cons_append, atom_of_minus hdigit, ← List.cons_append]
    rw [if_pos rfl, Int.ofNat_natAbs_of_nonpos hn.le, neg_neg] at hread
    exact hread
  · rw [String.toList_ofList, heq]
    refine reads_of_atom ?_ (hne rfl) (hne rfl) (hne rfl) (hne rfl) ?_
    · simp [isSpace, hne (d := ' ') rfl, hne (d := '\t') rfl, hne (d := '\n') rfl,
        hne (d := '\r') rfl]
    intro rest hrest
    have hread := unsigned_toDigits h hrest (Nat.toDigits 10 n.natAbs ++ rest) false
    rw [heq, List.cons_append, ← number_of_ne_minus (hne rfl)] at hread
    rw [if_neg (by decide), Int.natAbs_of_nonneg (by omega)] at hread
    rw [List.cons_append, atom_of_digit hdigit]
    exact hread

/-! ### Strings -/

/-- A string between quotation marks whose characters are spelled by `escape`. -/
def quoted (escape : Char → List Char) (s : String) : List Char :=
  '"' :: s.toList.flatMap escape ++ ['"']

theorem reads_string {escape : Char → List Char} (hescape : ∀ c, StandsFor (escape c) c)
    (s : String) : Reads (quoted escape s) (.string s) := by
  refine ⟨⟨'"', _, rfl, by decide, by decide⟩, fun fuel rest hfuel _ => ?_⟩
  obtain ⟨fuel, rfl⟩ : ∃ k, fuel = k + 1 := ⟨fuel - 1, by simp [quoted] at hfuel; omega⟩
  have hread := stringTail_flatMap hescape s (quoted escape s ++ rest) rest
  simp only [quoted, List.cons_append, List.append_assoc, List.nil_append] at hread ⊢
  rw [value.eq_2, hread]

/-! ### Rows -/

/-- Texts with commas between them and blanks behind the commas. -/
def row (separator : List Char) (texts : List (List Char)) : List Char :=
  List.intercalate (',' :: separator) texts

theorem row_singleton (separator text : List Char) : row separator [text] = text :=
  List.intercalate_singleton

theorem row_cons_cons (separator text next : List Char) (texts : List (List Char)) :
    row separator (text :: next :: texts)
      = text ++ ',' :: (separator ++ row separator (next :: texts)) := by
  rw [row, List.intercalate_cons_cons, List.append_assoc, List.cons_append]
  rfl

/-- A row begins as its first text does. -/
theorem exists_row_cons (separator text : List Char) (texts : List (List Char)) :
    ∃ more, row separator (text :: texts) = text ++ more := by
  cases texts with
  | nil => exact ⟨[], by rw [row_singleton, List.append_nil]⟩
  | cons next texts => exact ⟨_, row_cons_cons separator text next texts⟩

/-- The characters of a row are those of its texts, commas and blanks. -/
theorem forall_mem_row {P : Char → Prop} (hcomma : P ',') {separator : List Char}
    (hseparator : ∀ c ∈ separator, P c) {texts : List (List Char)}
    (htexts : ∀ text ∈ texts, ∀ c ∈ text, P c) : ∀ c ∈ row separator texts, P c := by
  induction texts with
  | nil => simp [row]
  | cons text texts ih =>
    obtain ⟨htext, hrest⟩ := List.forall_mem_cons.1 htexts
    cases texts with
    | nil => rwa [row_singleton]
    | cons next texts =>
      rw [row_cons_cons, List.forall_mem_append, List.forall_mem_cons, List.forall_mem_append]
      exact ⟨htext, hcomma, hseparator, ih hrest⟩

/-! ### Arrays -/

/-- The items of an array are read one after another up to the closing bracket. -/
theorem items_row {separator closing : List Char} (hseparator : IsBlank separator)
    (hclosing : IsBlank closing) (rest : List Char) {part : List Char × Json}
    {parts : List (List Char × Json)} (hparts : ∀ p ∈ part :: parts, Reads p.1 p.2) (fuel : Nat)
    (done : List Json)
    (hfuel : (row separator ((part :: parts).map Prod.fst)).length < fuel) :
    items fuel (row separator ((part :: parts).map Prod.fst) ++ (closing ++ ']' :: rest)) done
      = .ok (.array (done.reverse ++ (part :: parts).map Prod.snd), rest) := by
  induction parts generalizing part fuel done with
  | nil =>
    obtain ⟨fuel, rfl⟩ : ∃ k, fuel = k + 1 := ⟨fuel - 1, by omega⟩
    have hpart := hparts part List.mem_cons_self
    rw [List.map_cons, List.map_nil, row_singleton] at hfuel ⊢
    rw [items, hpart.value_eq fuel _ (by omega)
      (Delimited.blank hclosing (delimited_cons (by decide) _))]
    simp only [skip_blank hclosing, skip_cons (show isSpace ']' = false by decide),
      List.reverse_cons, List.map_cons, List.map_nil]
  | cons next parts ih =>
    obtain ⟨fuel, rfl⟩ : ∃ k, fuel = k + 1 := ⟨fuel - 1, by omega⟩
    have hpart := hparts part List.mem_cons_self
    have hnext := hparts next (by simp)
    -- there are at least as many steps of fuel as characters, and every item has one
    have hpos := hpart.length_pos
    have hmore := ih (fun p hp => hparts p (List.mem_cons_of_mem _ hp)) fuel (part.2 :: done)
    obtain ⟨more, hrow⟩ := exists_row_cons separator next.1 (parts.map Prod.fst)
    rw [List.map_cons, List.map_cons, row_cons_cons, List.length_append, List.length_cons,
      List.length_append] at hfuel
    rw [List.map_cons, List.map_cons, row_cons_cons, List.append_assoc, List.cons_append, items,
      hpart.value_eq fuel _ (by omega) (delimited_cons (by decide) _)]
    simp only [skip_cons (show isSpace ',' = false by decide), List.append_assoc,
      skip_blank hseparator]
    rw [hrow, List.append_assoc, hnext.skip_append, ← List.append_assoc, ← hrow]
    rw [List.map_cons] at hmore
    rw [hmore (by omega), List.reverse_cons, List.append_assoc, List.singleton_append]
    rfl

/-- Texts that are read as values, with commas between them, make the text of an array. -/
theorem reads_array {opening separator closing : List Char} (hopening : IsBlank opening)
    (hseparator : IsBlank separator) (hclosing : IsBlank closing)
    {parts : List (List Char × Json)} (hparts : ∀ p ∈ parts, Reads p.1 p.2) :
    Reads ('[' :: (opening ++ row separator (parts.map Prod.fst) ++ closing ++ [']']))
      (.array (parts.map Prod.snd)) := by
  refine ⟨⟨'[', _, rfl, by decide, by decide⟩, fun fuel rest hfuel _ => ?_⟩
  obtain ⟨fuel, rfl⟩ : ∃ k, fuel = k + 1 := ⟨fuel - 1, by rw [List.length_cons] at hfuel; omega⟩
  simp only [List.length_cons, List.length_append, List.length_nil] at hfuel
  rw [List.cons_append, value.eq_3]
  simp only [List.append_assoc, List.singleton_append, skip_blank hopening]
  cases parts with
  | nil =>
    simp only [List.map_nil, row, List.intercalate_nil, List.nil_append, skip_blank hclosing,
      skip_cons (show isSpace ']' = false by decide)]
  | cons part parts =>
    have hitems := items_row hseparator hclosing rest hparts fuel [] (by omega)
    obtain ⟨more, hrow⟩ := exists_row_cons separator part.1 (parts.map Prod.fst)
    have hpart := hparts part List.mem_cons_self
    -- the first item does not begin with the closing bracket, so the array is not taken for empty
    obtain ⟨c, tail, htext, hspace, hc⟩ := hpart.head
    rw [List.map_cons, hrow, htext] at hitems ⊢
    simp only [List.cons_append, skip_cons hspace] at hitems ⊢
    split
    · next heq => exact absurd (List.cons.inj heq).1 hc
    · exact hitems

/-! ### Objects -/

/-- An entry of an object: its name, the text of its value and the value. -/
structure Part where
  /-- The name. -/
  name : String
  /-- The text of the value. -/
  text : List Char
  /-- The value. -/
  value : Json

/-- The text of an entry, with blanks behind the colon. -/
def Part.spelled (escape : Char → List Char) (gap : List Char) (p : Part) : List Char :=
  quoted escape p.name ++ ':' :: (gap ++ p.text)

theorem Part.length_text_lt (escape : Char → List Char) (gap : List Char) (p : Part) :
    p.text.length + 1 < (p.spelled escape gap).length := by
  simp only [Part.spelled, quoted, List.length_append, List.length_cons]
  omega

section

variable {escape : Char → List Char} (hescape : ∀ c, StandsFor (escape c) c) {gap : List Char}
  (hgap : IsBlank gap)
include hescape hgap

/-- The entry at the start of a text is read and, where its name is new, put behind the others. -/
theorem members_spelled {p : Part} (hp : Reads p.text p.value) {fuel : Nat}
    (hfuel : p.text.length ≤ fuel) {rest : List Char} (hrest : Delimited rest)
    {done : Entries String Json} (hnew : p.name ∉ Entries.keys done) :
    members (fuel + 1) (p.spelled escape gap ++ rest) done
      = match skip rest with
        | '}' :: rest => .ok (.object (done ++ [(p.name, p.value)]), rest)
        | ',' :: rest => members fuel (skip rest) (done ++ [(p.name, p.value)])
        | rest => .error ⟨.expectingComma, rest⟩ := by
  have hname := stringTail_flatMap hescape p.name (p.spelled escape gap ++ rest)
    (':' :: (gap ++ p.text ++ rest))
  simp only [Part.spelled, quoted, List.cons_append, List.append_assoc, List.nil_append]
    at hname ⊢
  rw [members.eq_2, hname, ← Entries.put_of_notMem hnew]
  simp only [skip_cons (show isSpace ':' = false by decide), skip_blank hgap, hp.skip_append,
    hp.value_eq fuel rest hfuel hrest]
  all_goals rfl

/-- The entries of an object are read one after another up to the closing brace. -/
theorem members_row {separator closing : List Char} (hseparator : IsBlank separator)
    (hclosing : IsBlank closing) (rest : List Char) {part : Part} {parts : List Part}
    (hparts : ∀ p ∈ part :: parts, Reads p.text p.value) (fuel : Nat)
    (done : Entries String Json)
    (hnames : (Entries.keys done ++ (part :: parts).map Part.name).Nodup)
    (hfuel : (row separator ((part :: parts).map (Part.spelled escape gap))).length < fuel) :
    members fuel (row separator ((part :: parts).map (Part.spelled escape gap))
        ++ (closing ++ '}' :: rest)) done
      = .ok (.object (done ++ (part :: parts).map fun p => (p.name, p.value)), rest) := by
  induction parts generalizing part fuel done with
  | nil =>
    obtain ⟨fuel, rfl⟩ : ∃ k, fuel = k + 1 := ⟨fuel - 1, by omega⟩
    have hlength := part.length_text_lt escape gap
    have hnew : part.name ∉ Entries.keys done := fun hmem =>
      List.disjoint_of_nodup_append hnames hmem List.mem_cons_self
    rw [List.map_cons, List.map_nil, row_singleton] at hfuel ⊢
    rw [members_spelled hescape hgap (hparts part List.mem_cons_self) (by omega)
      (Delimited.blank hclosing (delimited_cons (by decide) _)) hnew]
    simp only [skip_blank hclosing, skip_cons (show isSpace '}' = false by decide),
      List.map_cons, List.map_nil]
  | cons next parts ih =>
    obtain ⟨fuel, rfl⟩ : ∃ k, fuel = k + 1 := ⟨fuel - 1, by omega⟩
    have hlength := part.length_text_lt escape gap
    have hnew : part.name ∉ Entries.keys done := fun hmem =>
      List.disjoint_of_nodup_append hnames hmem List.mem_cons_self
    have hmore := ih (fun p hp => hparts p (List.mem_cons_of_mem _ hp)) fuel
      (done ++ [(part.name, part.value)]) (by simpa [Entries.keys] using hnames)
    -- a blank is skipped in front of the next name, and the name begins with no blank
    have hstart : skip (row separator ((next :: parts).map (Part.spelled escape gap))
          ++ (closing ++ '}' :: rest))
        = row separator ((next :: parts).map (Part.spelled escape gap))
          ++ (closing ++ '}' :: rest) := by
      obtain ⟨more, hrow⟩ := exists_row_cons separator (next.spelled escape gap)
        (parts.map (Part.spelled escape gap))
      rw [List.map_cons, hrow]
      exact skip_cons (by decide) _
    rw [List.map_cons, List.map_cons, row_cons_cons, List.length_append, List.length_cons,
      List.length_append] at hfuel
    rw [List.map_cons, List.map_cons, row_cons_cons, List.append_assoc, List.cons_append,
      members_spelled hescape hgap (hparts part List.mem_cons_self) (by omega)
        (delimited_cons (by decide) _) hnew]
    rw [List.map_cons] at hmore hstart
    simp only [skip_cons (show isSpace ',' = false by decide), List.append_assoc,
      skip_blank hseparator, hstart, hmore (by omega), List.map_cons, List.singleton_append]

/-- Texts of entries with different names, with commas between them, make the text of an
object. -/
theorem reads_object {opening separator closing : List Char} (hopening : IsBlank opening)
    (hseparator : IsBlank separator) (hclosing : IsBlank closing) {parts : List Part}
    (hparts : ∀ p ∈ parts, Reads p.text p.value) (hnames : (parts.map Part.name).Nodup) :
    Reads ('{' :: (opening ++ row separator (parts.map (Part.spelled escape gap)) ++ closing
        ++ ['}']))
      (.object (parts.map fun p => (p.name, p.value))) := by
  refine ⟨⟨'{', _, rfl, by decide, by decide⟩, fun fuel rest hfuel _ => ?_⟩
  obtain ⟨fuel, rfl⟩ : ∃ k, fuel = k + 1 := ⟨fuel - 1, by rw [List.length_cons] at hfuel; omega⟩
  simp only [List.length_cons, List.length_append, List.length_nil] at hfuel
  rw [List.cons_append, value.eq_4]
  simp only [List.append_assoc, List.singleton_append, skip_blank hopening]
  cases parts with
  | nil =>
    simp only [List.map_nil, row, List.intercalate_nil, List.nil_append, skip_blank hclosing,
      skip_cons (show isSpace '}' = false by decide)]
  | cons part parts =>
    have hmembers := members_row hescape hgap hseparator hclosing rest hparts fuel []
      (by simpa [Entries.keys] using hnames) (by omega)
    obtain ⟨more, hrow⟩ := exists_row_cons separator (part.spelled escape gap)
      (parts.map (Part.spelled escape gap))
    rw [List.map_cons, hrow, Part.spelled, quoted] at hmembers ⊢
    simp only [List.cons_append, skip_cons (show isSpace '"' = false by decide)] at hmembers ⊢
    exact hmembers

end

/-- No value begins with a byte order mark. -/
theorem Reads.head_ne_mark {tail : List Char} {v : Json} : ¬ Reads ('\uFEFF' :: tail) v := by
  intro h
  have hread := h.value_eq (tail.length + 1) [] le_rfl (by simp [Delimited])
  have hrefused : value (tail.length + 1) ('\uFEFF' :: tail ++ [])
      = .error ⟨.expectingValue, '\uFEFF' :: tail ++ []⟩ := rfl
  rw [hrefused] at hread
  cases hread

/-- A text that is read as a value is a document. -/
theorem document_of_reads {cs : List Char} {v : Json} (h : Reads cs v) : document cs = .ok v := by
  have hread := h.value_eq (2 * cs.length + 2) [] (by omega) (by simp [Delimited])
  have hskip := h.skip_append []
  rw [List.append_nil] at hread hskip
  rw [document.eq_2 _ fun tail heq => Reads.head_ne_mark (heq ▸ h), hskip, hread]
  rfl

end Reader

/-- A text that is read as a value is parsed as it. -/
theorem parse_of_reads {text : String} {v : Json} (h : Reader.Reads text.toList v) :
    parse text = .ok v := by
  rw [parse, Reader.document_of_reads h]
  rfl

end Json

end DeclGraph
