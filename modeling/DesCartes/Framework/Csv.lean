import Mathlib.Data.List.Basic

/-!
# Comma-separated values

A table is written row by row, the fields of a row with a separator between them, and a newline
behind it. A field may be quoted, with each quote in it doubled. `read` goes through the text once,
and fails where a quote is in a place where it may not be, or the last row is cut short.

* `read_lines`: the rows that are written are read back, whichever fields are quoted that need not be.
-/

namespace DesCartes

/-- The characters of a format. -/
structure Csv (α : Type*) where
  separator : α
  quote : α
  newline : α
  separator_ne : separator ≠ quote
  newline_ne : newline ≠ quote
  newline_ne_separator : newline ≠ separator

namespace Csv

variable {α : Type*} [DecidableEq α] (csv : Csv α)

/-- The field has none of the characters of the format. -/
def Plain (field : List α) : Prop := csv.separator ∉ field ∧ csv.quote ∉ field ∧ csv.newline ∉ field

instance (field : List α) : Decidable (csv.Plain field) := inferInstanceAs (Decidable (_ ∧ _ ∧ _))

/-- The field in quotes. -/
def quoted (field : List α) : List α :=
  csv.quote :: field.flatMap (fun c => if c = csv.quote then [csv.quote, csv.quote] else [c]) ++
    [csv.quote]

/-- The field is written as `text`. -/
def Writes (field text : List α) : Prop := text = csv.quoted field ∨ text = field ∧ csv.Plain field

/-- The fields with separators between them. -/
def join : List (List α) → List α
  | [] => []
  | [text] => text
  | text :: texts => text ++ csv.separator :: join texts

/-- A row, with its newline. -/
def line (texts : List (List α)) : List α := csv.join texts ++ [csv.newline]

/-- Where the reader is in a field. -/
inductive At where
  | start
  | plain
  | quoted
  /-- Behind a quote in a quoted field. -/
  | closing

/-- What is read on, with the field and the row that have been begun. -/
def readFrom : At → List α → List (List α) → List α → Option (List (List (List α)))
  | .start, _, [], [] => some []
  | _, _, _, [] => none
  | .start, field, row, c :: l =>
    if c = csv.quote then readFrom .quoted field row l
    else if c = csv.separator then readFrom .start [] (row ++ [field]) l
    else if c = csv.newline then (readFrom .start [] [] l).map ((row ++ [field]) :: ·)
    else readFrom .plain (field ++ [c]) row l
  | .plain, field, row, c :: l =>
    if c = csv.quote then none
    else if c = csv.separator then readFrom .start [] (row ++ [field]) l
    else if c = csv.newline then (readFrom .start [] [] l).map ((row ++ [field]) :: ·)
    else readFrom .plain (field ++ [c]) row l
  | .quoted, field, row, c :: l =>
    if c = csv.quote then readFrom .closing field row l else readFrom .quoted (field ++ [c]) row l
  | .closing, field, row, c :: l =>
    if c = csv.quote then readFrom .quoted (field ++ [c]) row l
    else if c = csv.separator then readFrom .start [] (row ++ [field]) l
    else if c = csv.newline then (readFrom .start [] [] l).map ((row ++ [field]) :: ·)
    else none

/-- The rows of a text. -/
def read (text : List α) : Option (List (List (List α))) := csv.readFrom .start [] [] text

variable {csv} {field text : List α}

/-- Behind a field. -/
def ends (csv : Csv α) (field : List α) (row : List (List α)) : List α → Option (List (List (List α)))
  | [] => none
  | c :: l =>
    if c = csv.separator then csv.readFrom .start [] (row ++ [field]) l
    else if c = csv.newline then (csv.readFrom .start [] [] l).map ((row ++ [field]) :: ·)
    else none

theorem readFrom_plain (hplain : csv.Plain field) (row : List (List α)) (read rest : List α) {c : α}
    (hc : c = csv.separator ∨ c = csv.newline) :
    csv.readFrom .plain read row (field ++ c :: rest) = csv.ends (read ++ field) row (c :: rest) := by
  induction field generalizing read with
  | nil => rcases hc with rfl | rfl <;> simp [readFrom, ends, csv.separator_ne, csv.newline_ne]
  | cons d field ih =>
    simp only [Plain, List.mem_cons, not_or] at hplain ih
    obtain ⟨hsep, hquote, hnew⟩ := hplain
    simp only [List.cons_append, readFrom, if_neg (Ne.symm hquote.1), if_neg (Ne.symm hsep.1),
      if_neg (Ne.symm hnew.1)]
    rw [ih ⟨hsep.2, hquote.2, hnew.2⟩ (read ++ [d])]
    simp

theorem readFrom_quoted (row : List (List α)) (field read rest : List α) {c : α}
    (hc : c = csv.separator ∨ c = csv.newline) :
    csv.readFrom .quoted read row (field.flatMap (fun c =>
        if c = csv.quote then [csv.quote, csv.quote] else [c]) ++ csv.quote :: c :: rest) =
      csv.ends (read ++ field) row (c :: rest) := by
  induction field generalizing read with
  | nil => rcases hc with rfl | rfl <;> simp [readFrom, ends, csv.separator_ne, csv.newline_ne]
  | cons d field ih =>
    by_cases hd : d = csv.quote
    · subst hd
      simp [readFrom, ih]
    · simp [readFrom, hd, ih]

/-- A field, whichever way it is written, is read up to the character behind it. -/
theorem readFrom_field (h : csv.Writes field text) (row : List (List α)) (rest : List α) {c : α}
    (hc : c = csv.separator ∨ c = csv.newline) :
    csv.readFrom .start [] row (text ++ c :: rest) = csv.ends field row (c :: rest) := by
  rcases h with rfl | ⟨rfl, hplain⟩
  · have hread := readFrom_quoted row field [] rest hc
    simpa [quoted, readFrom] using hread
  · have hread := readFrom_plain hplain row [] rest hc
    cases text with
    | nil => rcases hc with rfl | rfl <;> simp [readFrom, ends, csv.separator_ne, csv.newline_ne]
    | cons d text =>
      simp only [Plain, List.mem_cons, not_or] at hplain
      obtain ⟨hsep, hquote, hnew⟩ := hplain
      simp only [List.cons_append, readFrom, if_neg (Ne.symm hquote.1), if_neg (Ne.symm hsep.1),
        if_neg (Ne.symm hnew.1)] at hread ⊢
      exact hread

theorem readFrom_line {fields texts : List (List α)} (h : List.Forall₂ csv.Writes fields texts)
    (hne : fields ≠ []) (row : List (List α)) (rest : List α) :
    csv.readFrom .start [] row (csv.line texts ++ rest) = (csv.read rest).map ((row ++ fields) :: ·) := by
  induction h generalizing row with
  | nil => exact absurd rfl hne
  | @cons field text fields texts hw hrest ih =>
    cases hrest with
    | nil =>
      have hread := readFrom_field hw row rest (.inr rfl)
      simp [line, join, hread, ends, csv.newline_ne_separator, read]
    | @cons field' text' fields texts hw' hrest =>
      have hline : csv.line (text :: text' :: texts) ++ rest =
          text ++ csv.separator :: (csv.line (text' :: texts) ++ rest) := by
        simp [line, join]
      rw [hline, readFrom_field hw row _ (.inl rfl), ends, if_pos rfl, ih (List.cons_ne_nil _ _)]
      simp

/-- The text of a table. -/
def Lines (csv : Csv α) (rows : List (List (List α))) (text : List α) : Prop :=
  ∃ texts, List.Forall₂ (List.Forall₂ csv.Writes) rows texts ∧ text = texts.flatMap csv.line

/-- The rows of a table are read back. -/
theorem read_lines {rows : List (List (List α))} (hne : ∀ fields ∈ rows, fields ≠ [])
    (h : csv.Lines rows text) :
    csv.read text = some rows := by
  obtain ⟨texts, h, rfl⟩ := h
  induction h with
  | nil => rfl
  | @cons fields line rows lines hw hrest ih =>
    rw [List.flatMap_cons, read, readFrom_line hw (hne _ List.mem_cons_self),
      ih fun fields hf => hne fields (List.mem_cons_of_mem _ hf)]
    rfl

end Csv

end DesCartes
