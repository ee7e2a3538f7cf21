import Mathlib.Data.List.Basic
import Mathlib.Logic.Function.Basic

/-!
# Ledgers

A ledger is told of items that are started under an id, noted something of, and finished. What it
has to know after a history of such marks is told from the history: which items are open, and with
what notes (`Open`), and which have been finished, in their order (`Finished`). `Recorded` says that
it does know it; `Recorded.start`, `Recorded.note`, `Recorded.finish` and `Recorded.other` are the
steps of a ledger that does. `latest` is what a ledger keeps that only keeps so many finished items.
-/

namespace DesCartes.Ledger

variable {ι α β γ δ : Type}

/-- What happens to an item. -/
inductive Mark (ι α β γ : Type) where
  | start (id : ι) (item : α)
  | note (id : ι) (b : β)
  | finish (id : ι) (c : γ)
  | other

namespace Mark

variable [DecidableEq ι]

/-- An item with the id is started. -/
def starts (id : ι) : Mark ι α β γ → Bool
  | start i _ => i = id
  | _ => false

/-- An item with the id is finished. -/
def finishes (id : ι) : Mark ι α β γ → Bool
  | finish i _ => i = id
  | _ => false

/-- What is noted of an item with the id. -/
def noted (id : ι) : Mark ι α β γ → Option β
  | note i b => if i = id then some b else none
  | _ => none

end Mark

/-- The last `limit` items, or all of them if there is no limit. -/
def latest (limit : Nat) (items : List δ) : List δ := if limit = 0 then items else items.drop (items.length - limit)

theorem latest_latest_append (limit : Nat) (items : List δ) (x : δ) :
    latest limit (latest limit items ++ [x]) = latest limit (items ++ [x]) := by
  rw [latest, latest, latest]
  split
  · rfl
  · rename_i hlimit
    rw [List.length_append, List.length_drop, List.length_append, List.length_singleton]
    by_cases hle : items.length ≤ limit
    · rw [Nat.sub_eq_zero_of_le hle, Nat.sub_zero, List.drop_zero]
    · rw [List.drop_append_of_le_length (by rw [List.length_drop]; omega), List.drop_drop,
        List.drop_append_of_le_length (by omega)]
      congr 2
      omega

theorem latest_latest (limit : Nat) (items : List δ) :
    latest limit (latest limit items) = latest limit items := by
  rw [latest, latest]
  split
  · rfl
  · rw [List.drop_drop, List.length_drop]
    congr 1
    omega

/-! ## Histories -/

variable [DecidableEq ι]

/-- After the history, the item is open under the id: it was started, and since then it was not
finished, nor another one started under the id. These are the notes of it, in their order. -/
def Open (h : List (Mark ι α β γ)) (id : ι) (item : α) (notes : List β) : Prop :=
  ∃ before since, h = before ++ .start id item :: since ∧ (∀ m ∈ since, m.starts id = false ∧ m.finishes id = false) ∧
    notes = since.filterMap (Mark.noted id)

/-- The items that have been finished in the history, in their order; `value` is an item with its
notes, and `close` finishes it. -/
inductive Finished (value : α → List β → δ) (close : δ → γ → δ) : List (Mark ι α β γ) → List δ → Prop
  | nil : Finished value close [] []
  | finish {h : List (Mark ι α β γ)} {items : List δ} {id : ι} {item : α} {notes : List β} (c : γ) (rest : Finished value close h items)
      (isOpen : Open h id item notes) : Finished value close (h ++ [.finish id c]) (items ++ [close (value item notes) c])
  | skip {h : List (Mark ι α β γ)} {items : List δ} {m : Mark ι α β γ} (rest : Finished value close h items)
      (other : ∀ id, m.finishes id = false) : Finished value close (h ++ [m]) items

/-- What is open and what has been finished is as the history says; and what was started under an id
has been finished, but for the item that is open under it. -/
structure Recorded (value : α → List β → δ) (close : δ → γ → δ) (h : List (Mark ι α β γ))
    (active : ι → Option δ) (finished : List δ) :
    Prop where
  isOpen : ∀ id d, active id = some d ↔ ∃ item notes, Open h id item notes ∧ d = value item notes
  finished : Finished value close h finished
  balance : ∀ id, h.countP (Mark.starts id) = h.countP (Mark.finishes id) + if (active id).isSome = true then 1 else 0

variable {h : List (Mark ι α β γ)} {m : Mark ι α β γ} {id : ι} {item : α} {notes : List β}

theorem open_snoc : Open (h ++ [m]) id item notes ↔
    m = .start id item ∧ notes = [] ∨ (m.starts id = false ∧ m.finishes id = false) ∧
      ∃ notes', Open h id item notes' ∧ notes = notes' ++ (m.noted id).toList := by
  constructor
  · rintro ⟨before, since, heq, hsince, rfl⟩
    rcases List.eq_nil_or_concat since with rfl | ⟨since, last, rfl⟩
    · obtain ⟨-, hlast⟩ := List.append_inj' heq rfl
      exact .inl ⟨List.singleton_inj.mp hlast, rfl⟩
    · rw [List.concat_eq_append, ← List.cons_append, ← List.append_assoc] at heq
      obtain ⟨rfl, hlast⟩ := List.append_inj' heq rfl
      cases List.singleton_inj.mp hlast
      rw [List.concat_eq_append] at hsince ⊢
      refine .inr ⟨hsince m (List.mem_append_right _ (List.mem_singleton_self m)), _,
        ⟨before, since, rfl, fun m' hm' => hsince m' (List.mem_append_left _ hm'), rfl⟩, ?_⟩
      rw [List.filterMap_append]
      cases hnote : m.noted id with
      | none => rw [List.filterMap_cons_none hnote]; rfl
      | some b => rw [List.filterMap_cons_some hnote]; rfl
  · rintro (⟨rfl, rfl⟩ | ⟨hm, notes', ⟨before, since, rfl, hsince, rfl⟩, rfl⟩)
    · exact ⟨h, [], rfl, fun m hm => absurd hm List.not_mem_nil, rfl⟩
    · refine ⟨before, since ++ [m], by rw [List.append_assoc, List.cons_append], fun m' hm' => ?_, ?_⟩
      · rcases List.mem_append.mp hm' with hm' | hm'
        · exact hsince m' hm'
        · cases List.mem_singleton.mp hm'
          exact hm
      · rw [List.filterMap_append]
        cases hnote : m.noted id with
        | none => rw [List.filterMap_cons_none hnote]; rfl
        | some b => rw [List.filterMap_cons_some hnote]; rfl

theorem not_open_nil : ¬Open ([] : List (Mark ι α β γ)) id item notes := by
  rintro ⟨before, since, heq, -⟩
  cases before <;> cases heq

variable {value : α → List β → δ} {close : δ → γ → δ} {active : ι → Option δ} {finished : List δ}

/-- A mark that is not about the items with the id. -/
theorem exists_open_snoc (hstarts : m.starts id = false) (hfinishes : m.finishes id = false)
    (hnoted : m.noted id = none) {d : δ} :
    (∃ item notes, Open (h ++ [m]) id item notes ∧ d = value item notes) ↔ ∃ item notes,
    Open h id item notes ∧ d = value item notes := by
  constructor
  · rintro ⟨item, notes, hopen, hd⟩
    rcases open_snoc.mp hopen with ⟨rfl, -⟩ | ⟨-, notes', hopen', hnotes⟩
    · exact absurd hstarts (by simp [Mark.starts])
    · rw [hnoted, Option.toList_none, List.append_nil] at hnotes
      exact ⟨item, notes', hopen', hnotes ▸ hd⟩
  · rintro ⟨item, notes, hopen, hd⟩
    refine ⟨item, notes, open_snoc.mpr (.inr ⟨⟨hstarts, hfinishes⟩, notes, hopen, ?_⟩), hd⟩
    rw [hnoted, Option.toList_none, List.append_nil]

theorem recorded_nil : Recorded value close ([] : List (Mark ι α β γ)) (fun _ => none) [] := by
  refine ⟨fun id d => ⟨?_, ?_⟩, .nil, fun id => rfl⟩
  · rintro ⟨⟩
  · rintro ⟨item, notes, hopen, -⟩
    exact absurd hopen not_open_nil

theorem Recorded.other (h₀ : Recorded value close h active finished) :
    Recorded value close (h ++ [.other]) active finished := by
  refine ⟨fun id d => ?_, h₀.finished.skip fun _ => rfl, fun id => ?_⟩
  · rw [h₀.isOpen, exists_open_snoc rfl rfl rfl]
  · rw [List.countP_append, List.countP_append, h₀.balance id]
    exact Nat.add_right_comm ..

theorem Recorded.start (h₀ : Recorded value close h active finished) {i : ι}
    (hnone : active i = none) (x : α) :
    Recorded value close (h ++ [.start i x]) (Function.update active i (some (value x []))) finished := by
  refine ⟨fun id d => ?_, h₀.finished.skip fun _ => rfl, fun id => ?_⟩
  · by_cases hid : id = i
    · subst hid
      rw [Function.update_self]
      constructor
      · rintro ⟨⟩
        exact ⟨x, [], open_snoc.mpr (.inl ⟨rfl, rfl⟩), rfl⟩
      · rintro ⟨item, notes, hopen, rfl⟩
        rcases open_snoc.mp hopen with ⟨heq, rfl⟩ | ⟨⟨hstarts, -⟩, -⟩
        · cases heq
          rfl
        · rw [Mark.starts, decide_eq_false_iff_not] at hstarts
          exact absurd rfl hstarts
    · have hstarts : (Mark.start i x : Mark ι α β γ).starts id = false := decide_eq_false (Ne.symm hid)
      rw [Function.update_of_ne hid, h₀.isOpen, exists_open_snoc hstarts rfl rfl]
  · rw [List.countP_append, List.countP_append, List.countP_singleton, List.countP_singleton, h₀.balance id]
    by_cases hid : id = i
    · subst hid
      simp [Mark.starts, Mark.finishes, hnone]
    · simp [Mark.starts, Mark.finishes, hid, Ne.symm hid]

theorem Recorded.note (h₀ : Recorded value close h active finished) {change : δ → β → δ}
    (hchange : ∀ item notes b, value item (notes ++ [b]) = change (value item notes) b) (i : ι) (b : β) :
    Recorded value close (h ++ [.note i b]) (Function.update active i
      ((active i).map fun d => change d b)) finished := by
  refine ⟨fun id d => ?_, h₀.finished.skip fun _ => rfl, fun id => ?_⟩
  · by_cases hid : id = i
    · subst hid
      have hnoted : (Mark.note id b : Mark ι α β γ).noted id = some b := if_pos rfl
      rw [Function.update_self, Option.map_eq_some_iff]
      constructor
      · rintro ⟨d, hd, rfl⟩
        obtain ⟨item, notes, hopen, rfl⟩ := (h₀.isOpen id d).mp hd
        exact ⟨item, notes ++ [b], open_snoc.mpr (.inr ⟨⟨rfl, rfl⟩, notes, hopen, by rw [hnoted]; rfl⟩),
          (hchange item notes b).symm⟩
      · rintro ⟨item, notes, hopen, rfl⟩
        rcases open_snoc.mp hopen with ⟨heq, -⟩ | ⟨-, notes', hopen', rfl⟩
        · cases heq
        · refine ⟨value item notes', (h₀.isOpen id _).mpr ⟨item, notes', hopen', rfl⟩, ?_⟩
          rw [hnoted]
          exact (hchange item notes' b).symm
    · have hnoted : (Mark.note i b : Mark ι α β γ).noted id = none := if_neg (Ne.symm hid)
      rw [Function.update_of_ne hid, h₀.isOpen, exists_open_snoc rfl rfl hnoted]
  · have hsome : (Function.update active i ((active i).map fun d => change d b) id).isSome =
        (active id).isSome := by
      by_cases hid : id = i
      · subst hid
        rw [Function.update_self, Option.isSome_map]
      · rw [Function.update_of_ne hid]
    rw [List.countP_append, List.countP_append, h₀.balance id, hsome]
    exact Nat.add_right_comm ..

theorem Recorded.finish (h₀ : Recorded value close h active finished) {i : ι} {d : δ}
    (hsome : active i = some d) (c : γ) :
    Recorded value close (h ++ [.finish i c]) (Function.update active i none) (finished ++ [close d c]) := by
  obtain ⟨item, notes, hopen, rfl⟩ := (h₀.isOpen i d).mp hsome
  refine ⟨fun id d => ?_, h₀.finished.finish c hopen, fun id => ?_⟩
  · by_cases hid : id = i
    · subst hid
      rw [Function.update_self]
      constructor
      · rintro ⟨⟩
      · rintro ⟨item, notes, hopen, rfl⟩
        rcases open_snoc.mp hopen with ⟨heq, -⟩ | ⟨⟨-, hfinishes⟩, -⟩
        · cases heq
        · rw [Mark.finishes, decide_eq_false_iff_not] at hfinishes
          exact absurd rfl hfinishes
    · have hfinishes : (Mark.finish i c : Mark ι α β γ).finishes id = false := decide_eq_false (Ne.symm hid)
      rw [Function.update_of_ne hid, h₀.isOpen, exists_open_snoc rfl hfinishes rfl]
  · rw [List.countP_append, List.countP_append, List.countP_singleton, List.countP_singleton, h₀.balance id]
    by_cases hid : id = i
    · subst hid
      simp [Mark.starts, Mark.finishes, hsome]
    · simp [Mark.starts, Mark.finishes, hid, Ne.symm hid]

end DesCartes.Ledger
