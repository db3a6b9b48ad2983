import Mathlib.Data.List.Flatten
import MemosNote.Filter.Bindings
import MemosNote.Filter.Engine

/-!
# Placeholder alignment

The renderer records a bound value when an atom hands out a placeholder, while the
text of the atom may still be dropped by a parent that folds to a constant.  This
module determines exactly when the placeholders of a statement line up with its
bound values, for a single statement and for filters appended to a where clause.

Main results:

- Theorem {lit}`render_carries`: the surviving placeholders of a statement are in order,
  and none is lost exactly when no folded part binds a value.
- Theorem {lit}`appendConditions_matched`: the same for appended filters.
- Theorem {lit}`placeholders_aligned_iff`: alignment of the text and the bound values of
  rendered and of appended filters.
-/

namespace MemosNote
namespace Filter

open Library

/-! ## Parts that fold to a constant -/

namespace Skeleton

variable {α β ε : Type}

/-- No atom of a tree has weight. -/
def Weightless (weight : α → ℕ) (t : Skeleton α) : Prop :=
  ∀ a ∈ t.atoms, weight a = 0

/-- No part that folds to a constant has weight. -/
def KeepsWeight (weight : α → ℕ) (t : Skeleton α) : Prop :=
  ∀ part ∈ t.parts, part.folds ≠ none → part.Weightless weight

instance (weight : α → ℕ) (t : Skeleton α) : Decidable (t.Weightless weight) :=
  inferInstanceAs (Decidable (∀ a ∈ t.atoms, weight a = 0))

instance (weight : α → ℕ) (t : Skeleton α) : Decidable (t.KeepsWeight weight) :=
  inferInstanceAs (Decidable (∀ part ∈ t.parts, part.folds ≠ none → part.Weightless weight))

theorem weightless_and (weight : α → ℕ) (l r : Skeleton α) :
    (and l r).Weightless weight ↔ l.Weightless weight ∧ r.Weightless weight := by
  simp [Weightless, atoms, or_imp, forall_and]

theorem weightless_or (weight : α → ℕ) (l r : Skeleton α) :
    (or l r).Weightless weight ↔ l.Weightless weight ∧ r.Weightless weight := by
  simp [Weightless, atoms, or_imp, forall_and]

theorem keepsWeight_constant (weight : α → ℕ) (b : Bool) :
    (constant b : Skeleton α).KeepsWeight weight := by
  simp [KeepsWeight, parts, Weightless, atoms]

theorem keepsWeight_atom (weight : α → ℕ) (a : α) : (atom a).KeepsWeight weight := by
  simp [KeepsWeight, parts, folds]

private theorem mem_parts_self (t : Skeleton α) : t ∈ t.parts := by
  cases t <;> simp [parts]

theorem keepsWeight_not (weight : α → ℕ) (t : Skeleton α) :
    (not t).KeepsWeight weight ↔ t.KeepsWeight weight := by
  simp only [KeepsWeight, parts, List.mem_cons, forall_eq_or_imp, folds]
  refine ⟨fun h => h.2, fun h => ⟨fun hfolds => ?_, h⟩⟩
  exact h t t.mem_parts_self (by simpa using hfolds)

theorem keepsWeight_and (weight : α → ℕ) (l r : Skeleton α) :
    (and l r).KeepsWeight weight ↔
      ((and l r).folds ≠ none → (and l r).Weightless weight) ∧
        l.KeepsWeight weight ∧ r.KeepsWeight weight := by
  simp only [KeepsWeight, parts, List.forall_mem_cons, List.forall_mem_append]

theorem keepsWeight_or (weight : α → ℕ) (l r : Skeleton α) :
    (or l r).KeepsWeight weight ↔
      ((or l r).folds ≠ none → (or l r).Weightless weight) ∧
        l.KeepsWeight weight ∧ r.KeepsWeight weight := by
  simp only [KeepsWeight, parts, List.forall_mem_cons, List.forall_mem_append]

/-- The atoms that survive when every part that folds to a constant is dropped. -/
def kept : Skeleton α → List α
  | constant _ => []
  | atom a => [a]
  | not t => t.kept
  | and l r => if (and l r).folds = none then l.kept ++ r.kept else []
  | or l r => if (or l r).folds = none then l.kept ++ r.kept else []

/-- Folding leaves out atoms and keeps the order of the others. -/
theorem kept_sublist (t : Skeleton α) : t.kept.Sublist t.atoms := by
  induction t with
  | constant b => exact List.Sublist.refl _
  | atom a => exact List.Sublist.refl _
  | not t ih => exact ih
  | and l r ihl ihr =>
      unfold kept atoms
      split
      · exact ihl.append ihr
      · exact List.nil_sublist _
  | or l r ihl ihr =>
      unfold kept atoms
      split
      · exact ihl.append ihr
      · exact List.nil_sublist _

/-- The total weight of a list of atoms. -/
def total (weight : α → ℕ) : List α → ℕ
  | [] => 0
  | a :: as => weight a + total weight as

theorem total_append (weight : α → ℕ) (as bs : List α) :
    total weight (as ++ bs) = total weight as + total weight bs := by
  induction as with
  | nil => simp [total]
  | cons a as ih =>
      simp only [List.cons_append, total]
      omega

theorem total_eq_zero_iff (weight : α → ℕ) (as : List α) :
    total weight as = 0 ↔ ∀ a ∈ as, weight a = 0 := by
  induction as with
  | nil => simp [total]
  | cons a as ih => simp [total, ih]

/-- Fewer atoms weigh no more. -/
theorem total_le_of_sublist (weight : α → ℕ) {as bs : List α} (h : as.Sublist bs) :
    total weight as ≤ total weight bs := by
  induction h with
  | slnil => exact le_refl _
  | cons b _ ih =>
      simp only [total]
      omega
  | cons_cons b _ ih =>
      simp only [total]
      omega

/-- A binary node keeps all its weight exactly when it keeps the weight of both operands
and has none when it folds. -/
private theorem total_node (weight : α → ℕ) {l r : Skeleton α} (folded : Prop) [Decidable folded]
    (hl : total weight l.kept = total weight l.atoms ↔ l.KeepsWeight weight)
    (hr : total weight r.kept = total weight r.atoms ↔ r.KeepsWeight weight) :
    total weight (if ¬folded then l.kept ++ r.kept else []) = total weight (l.atoms ++ r.atoms) ↔
      (folded → l.Weightless weight ∧ r.Weightless weight) ∧
        l.KeepsWeight weight ∧ r.KeepsWeight weight := by
  have hlle := total_le_of_sublist weight l.kept_sublist
  have hrle := total_le_of_sublist weight r.kept_sublist
  have hlzero := total_eq_zero_iff weight l.atoms
  have hrzero := total_eq_zero_iff weight r.atoms
  rw [total_append, ← hl, ← hr, Weightless, Weightless, ← hlzero, ← hrzero]
  by_cases h : folded
  · have hnil : total weight ([] : List α) = 0 := rfl
    simp only [h, not_true_eq_false, if_false, true_implies, hnil]
    omega
  · simp only [h, not_false_eq_true, if_true, false_implies, true_and, total_append]
    omega

/-- A tree keeps its whole weight exactly when no part that folds to a constant has weight. -/
theorem total_kept_eq_iff (weight : α → ℕ) (t : Skeleton α) :
    total weight t.kept = total weight t.atoms ↔ t.KeepsWeight weight := by
  induction t with
  | constant b => simp [kept, atoms, keepsWeight_constant]
  | atom a => simp [kept, atoms, keepsWeight_atom]
  | not t ih => rw [keepsWeight_not]; exact ih
  | and l r ihl ihr =>
      have hnode := total_node weight ((and l r).folds ≠ none) ihl ihr
      rw [keepsWeight_and, weightless_and, ← hnode]
      simp only [kept, atoms, ne_eq, not_not]
  | or l r ihl ihr =>
      have hnode := total_node weight ((or l r).folds ≠ none) ihl ihr
      rw [keepsWeight_or, weightless_or, ← hnode]
      simp only [kept, atoms, ne_eq, not_not]

/-- Two trees of the same form whose atoms are related. -/
inductive Alike (R : α → β → Prop) : Skeleton α → Skeleton β → Prop where
  | constant (b : Bool) : Alike R (constant b) (constant b)
  | atom {a : α} {b : β} (h : R a b) : Alike R (atom a) (atom b)
  | not {t : Skeleton α} {u : Skeleton β} (h : Alike R t u) : Alike R (not t) (not u)
  | and {l r : Skeleton α} {l' r' : Skeleton β} (hl : Alike R l l') (hr : Alike R r r') :
      Alike R (and l r) (and l' r')
  | or {l r : Skeleton α} {l' r' : Skeleton β} (hl : Alike R l l') (hr : Alike R r r') :
      Alike R (or l r) (or l' r')

namespace Alike

variable {R : α → β → Prop} {t : Skeleton α} {u : Skeleton β}

/-- Alike skeletons fold alike. -/
theorem folds_eq (h : Alike R t u) : t.folds = u.folds := by
  induction h with
  | constant b => rfl
  | atom h => rfl
  | not h ih => simp [folds, ih]
  | and hl hr ihl ihr => simp [folds, ihl, ihr]
  | or hl hr ihl ihr => simp [folds, ihl, ihr]

/-- Alike skeletons are weightless alike. -/
theorem weightless_iff {v : α → ℕ} {w : β → ℕ} (hw : ∀ a b, R a b → v a = w b)
    (h : Alike R t u) : t.Weightless v ↔ u.Weightless w := by
  induction h with
  | constant b => simp [Weightless, atoms]
  | atom h => simp [Weightless, atoms, hw _ _ h]
  | not h ih => exact ih
  | and hl hr ihl ihr => rw [weightless_and, weightless_and, ihl, ihr]
  | or hl hr ihl ihr => rw [weightless_or, weightless_or, ihl, ihr]

/-- Alike skeletons keep their weight alike. -/
theorem keepsWeight_iff {v : α → ℕ} {w : β → ℕ} (hw : ∀ a b, R a b → v a = w b)
    (h : Alike R t u) : t.KeepsWeight v ↔ u.KeepsWeight w := by
  induction h with
  | constant b => simp [keepsWeight_constant]
  | atom h => simp [keepsWeight_atom]
  | not h ih => rw [keepsWeight_not, keepsWeight_not, ih]
  | and hl hr ihl ihr =>
      rw [keepsWeight_and, keepsWeight_and, ihl, ihr, (Alike.and hl hr).folds_eq,
        (Alike.and hl hr).weightless_iff hw]
  | or hl hr ihl ihr =>
      rw [keepsWeight_or, keepsWeight_or, ihl, ihr, (Alike.or hl hr).folds_eq,
        (Alike.or hl hr).weightless_iff hw]

end Alike

/-- A map over the atoms keeps the form of a tree. -/
theorem alike_of_mapM {f : α → Except ε β} {t : Skeleton α} {u : Skeleton β}
    (h : t.mapM f = .ok u) : Alike (fun a b => f a = .ok b) t u := by
  induction t generalizing u with
  | constant b => cases h; exact .constant b
  | atom a =>
      rw [mapM] at h
      cases hf : f a with
      | error e => rw [hf] at h; cases h
      | ok b => rw [hf] at h; cases h; exact .atom hf
  | not t ih =>
      rw [mapM] at h
      cases ht : t.mapM f with
      | error e => rw [ht] at h; cases h
      | ok v => rw [ht] at h; cases h; exact .not (ih ht)
  | and l r ihl ihr =>
      rw [mapM] at h
      cases hl : l.mapM f with
      | error e => rw [hl] at h; cases h
      | ok v =>
          cases hr : r.mapM f with
          | error e => rw [hl, hr] at h; cases h
          | ok w => rw [hl, hr] at h; cases h; exact .and (ihl hl) (ihr hr)
  | or l r ihl ihr =>
      rw [mapM] at h
      cases hl : l.mapM f with
      | error e => rw [hl] at h; cases h
      | ok v =>
          cases hr : r.mapM f with
          | error e => rw [hl, hr] at h; cases h
          | ok w => rw [hl, hr] at h; cases h; exact .or (ihl hl) (ihr hr)

/-- Numbering keeps the form of a tree and the number of slots of each atom. -/
theorem alike_number (t : Skeleton (Fragment Arg)) (start : ℕ) :
    Alike (fun f g => f.slots.length = g.slots.length) t (t.number start) := by
  induction t generalizing start with
  | constant b => exact .constant b
  | atom f => exact .atom (by simp [Fragment.number])
  | not t ih => exact .not (ih start)
  | and l r ihl ihr => exact .and (ihl _) (ihr _)
  | or l r ihl ihr => exact .or (ihl _) (ihr _)

/-- The placeholders of a numbered tree are consecutive. -/
theorem slots_number (t : Skeleton (Fragment Arg)) (start : ℕ) :
    (t.number start).atoms.flatMap Fragment.slots = List.range' start t.values.length := by
  induction t generalizing start with
  | constant b => rfl
  | atom f => simp [number, atoms, Fragment.number]
  | not t ih => exact ih start
  | and l r ihl ihr =>
      rw [number, atoms, List.flatMap_append, ihl, ihr, values_and, List.length_append,
        List.range'_append_1]
  | or l r ihl ihr =>
      rw [number, atoms, List.flatMap_append, ihl, ihr, values_or, List.length_append,
        List.range'_append_1]

end Skeleton

/-! ## The text of a folded tree -/

/-- A result is a constant or readable text with the given placeholders. -/
inductive Carries (d : DialectName) : RenderResult → Option Bool → List ℕ → Prop where
  | always : Carries d .always (some true) []
  | never : Carries d .never (some false) []
  | text {sql : SqlText} (hne : sql ≠ []) (hreadable : sql.Readable d) :
      Carries d { sql } none sql.slots

namespace Carries

variable {d : DialectName} {left right : RenderResult} {a b : Option Bool} {s t : List ℕ}

private theorem text_of_slots {sql : SqlText} (hne : sql ≠ []) (hreadable : sql.Readable d)
    (hslots : sql.slots = s) : Carries d { sql } none s :=
  hslots ▸ .text hne hreadable

/-- What a negation carries. -/
theorem not (h : Carries d left a s) : Carries d (renderNot left) (a.map (! ·)) s := by
  cases h with
  | always => exact .never
  | never => exact .always
  | text hne hreadable =>
      exact text_of_slots (List.cons_ne_nil _ _) hreadable.paren.not (by simp [tokenSlots])

/-- What a conjunction carries: nothing of its operands where it folds. -/
theorem and (hl : Carries d left a s) (hr : Carries d right b t) :
    Carries d (combineAnd left right) (Skeleton.foldAnd a b)
      (if Skeleton.foldAnd a b = none then s ++ t else []) := by
  cases hl with
  | never => exact .never
  | always =>
      cases hr with
      | never => exact .never
      | always => exact .always
      | text hne hreadable => exact .text hne hreadable
  | text hne hreadable =>
      cases hr with
      | never => exact .never
      | always => exact text_of_slots hne hreadable (List.append_nil _).symm
      | text hne' hreadable' =>
          exact text_of_slots (List.cons_ne_nil _ _) (hreadable.and hreadable').paren
            (by simp [tokenSlots, Skeleton.foldAnd])

/-- What a disjunction carries: nothing of its operands where it folds. -/
theorem or (hl : Carries d left a s) (hr : Carries d right b t) :
    Carries d (combineOr left right) (Skeleton.foldOr a b)
      (if Skeleton.foldOr a b = none then s ++ t else []) := by
  cases hl with
  | always => exact .always
  | never =>
      cases hr with
      | never => exact .never
      | always => exact .always
      | text hne hreadable => exact .text hne hreadable
  | text hne hreadable =>
      cases hr with
      | always => exact .always
      | never => exact text_of_slots hne hreadable (List.append_nil _).symm
      | text hne' hreadable' =>
          exact text_of_slots (List.cons_ne_nil _ _) (hreadable.or hreadable').paren
            (by simp [tokenSlots, Skeleton.foldOr])

/-- The statement of a result is readable and holds the same placeholders; its text is
empty exactly when the result folded to true. -/
theorem statement (h : Carries d left a s) (args : List Arg) :
    (left.statement args).sql.Readable d ∧ (left.statement args).sql.slots = s ∧
      (left.statement args).args = args ∧ ((left.statement args).sql = [] ↔ a = some true) := by
  cases h with
  | always => exact ⟨Safe.nil, rfl, rfl, by simp [RenderResult.statement, RenderResult.always]⟩
  | never =>
      exact ⟨SqlText.Readable.leaf d _, rfl, rfl,
        by simp [RenderResult.statement, RenderResult.never]⟩
  | text hne hreadable =>
      exact ⟨hreadable, rfl, rfl, by simpa [RenderResult.statement] using hne⟩

end Carries

/-- The fold of a tree carries the placeholders of the kept atoms. -/
theorem Skeleton.result_carries (d : DialectName) (t : Skeleton (Fragment ℕ)) :
    Carries d t.result t.folds (t.kept.flatMap Fragment.slots) := by
  induction t with
  | constant b =>
      cases b with
      | true => exact .always
      | false => exact .never
  | atom f =>
      have hslots : (kept (.atom f)).flatMap Fragment.slots = SqlText.slots [.leaf f] := by
        simp [kept, tokenSlots]
      rw [hslots]
      exact .text (List.cons_ne_nil _ _) (SqlText.Readable.leaf d f)
  | not t ih => exact ih.not
  | and l r ihl ihr =>
      have hand := ihl.and ihr
      simp only [result, kept, folds]
      split at hand <;> simp_all
  | or l r ihl ihr =>
      have hor := ihl.or ihr
      simp only [result, kept, folds]
      split at hor <;> simp_all

/-! ## Conditions that keep their bindings -/

/-- No part of a condition that folds to a constant binds a value. -/
def Condition.KeepsBindings (schema : Schema) (dialect : DialectName) (c : Condition) : Prop :=
  c.tree.KeepsWeight (Condition.bindings schema dialect)

instance (schema : Schema) (dialect : DialectName) (c : Condition) :
    Decidable (c.KeepsBindings schema dialect) :=
  inferInstanceAs (Decidable (c.tree.KeepsWeight _))

/-- The skeleton of a condition keeps its slots exactly when the condition keeps its
bindings. -/
theorem keepsBindings_iff {schema : Schema} {dialect : DialectName} {c : Condition}
    {t : Skeleton (Fragment Arg)} (h : c.skeleton schema dialect = .ok t) (start : ℕ) :
    (t.number start).KeepsWeight (fun f => f.slots.length) ↔ c.KeepsBindings schema dialect := by
  have hnumber : t.KeepsWeight (fun f => f.slots.length) ↔
      (t.number start).KeepsWeight (fun f => f.slots.length) :=
    (t.alike_number start).keepsWeight_iff fun _ _ heq => heq
  have hatoms : c.tree.KeepsWeight (Condition.bindings schema dialect) ↔
      t.KeepsWeight (fun f => f.slots.length) :=
    (Skeleton.alike_of_mapM h).keepsWeight_iff fun _ _ hf => (length_slots_atom hf).symm
  rw [Condition.KeepsBindings, hatoms, hnumber]

/-! ## Alignment -/

/-- The placeholder that the database fills with the bound value number {lit}`k`: by
position in the text, or by number. -/
def boundSlot (d : DialectName) (offset : ℕ) (slots : List ℕ) (k : ℕ) : Option ℕ :=
  match d.style with
  | .question => slots[k]?
  | .dollar => slots.find? (· == offset + k)

/-- The text has exactly one placeholder for each bound value, and the database fills the
placeholder that was handed out for a value with that value.  Slots count the values
handed out before, so the value number {lit}`k` was recorded for slot {lit}`offset + k`. -/
structure Aligned (d : DialectName) (offset : ℕ) (sql : SqlText) (args : List Arg) : Prop where
  marks : scan d.style (sql.text d) = sql.slots.map d.style.mark
  count : (scan d.style (sql.text d)).length = args.length
  bound : ∀ k < args.length, boundSlot d offset sql.slots k = some (offset + k)

/-- Slots that meet {lit}`n` bound values one to one. -/
structure Matched (d : DialectName) (offset : ℕ) (slots : List ℕ) (n : ℕ) : Prop where
  count : slots.length = n
  bound : ∀ k < n, boundSlot d offset slots k = some (offset + k)

/-- For readable text alignment is a matter of its slots. -/
theorem aligned_iff_matched {d : DialectName} {offset : ℕ} {sql : SqlText} {args : List Arg}
    (h : sql.Readable d) : Aligned d offset sql args ↔ Matched d offset sql.slots args.length := by
  have hmarks := sql.scan_text d h
  have hlength : (scan d.style (sql.text d)).length = sql.slots.length := by
    rw [hmarks, List.length_map]
  exact ⟨fun ha => ⟨hlength ▸ ha.count, ha.bound⟩,
    fun hm => ⟨hmarks, hlength.trans hm.count, hm.bound⟩⟩

private theorem boundSlot_eq_some_iff (d : DialectName) (offset : ℕ) (slots : List ℕ) (k : ℕ) :
    boundSlot d offset slots k = some (offset + k) ↔
      match d.style with
      | .question => slots[k]? = some (offset + k)
      | .dollar => offset + k ∈ slots := by
  unfold boundSlot
  cases d.style with
  | question => exact Iff.rfl
  | dollar =>
      constructor
      · exact List.mem_of_find?_eq_some
      · intro hmem
        cases hfind : slots.find? (· == offset + k) with
        | none =>
            have hnone := List.find?_eq_none.mp hfind _ hmem
            simp at hnone
        | some x =>
            have hx := List.find?_some hfind
            simp only [beq_iff_eq] at hx
            rw [hx]

private theorem matched_range' (d : DialectName) (offset n : ℕ) :
    Matched d offset (List.range' offset n) n := by
  refine ⟨List.length_range', fun k hk => (boundSlot_eq_some_iff d offset _ k).mpr ?_⟩
  cases d.style with
  | question => simp [hk]
  | dollar =>
      simp only [List.mem_range'_1]
      omega

/-- In-order slots match exactly when none is missing. -/
theorem matched_iff_of_sublist {d : DialectName} {offset n : ℕ} {slots : List ℕ}
    (h : slots.Sublist (List.range' offset n)) :
    Matched d offset slots n ↔ slots.length = n := by
  refine ⟨fun hm => hm.count, fun hlength => ?_⟩
  have heq : slots = List.range' offset n := h.eq_of_length (by rw [hlength, List.length_range'])
  exact heq ▸ matched_range' d offset n

/-- Appending in-order slots: both lists must be complete. -/
theorem matched_append_iff {d : DialectName} {n m : ℕ} {slots more : List ℕ}
    (hle : slots.length ≤ n) (hmore : more.Sublist (List.range' n m)) :
    Matched d 0 (slots ++ more) (n + m) ↔ Matched d 0 slots n ∧ more.length = m := by
  have hmle : more.length ≤ m := by simpa using hmore.length_le
  constructor
  · intro h
    have hcount := h.count
    rw [List.length_append] at hcount
    have hn : slots.length = n := by omega
    refine ⟨⟨hn, fun k hk => (boundSlot_eq_some_iff d 0 _ k).mpr ?_⟩, by omega⟩
    have hbound := (boundSlot_eq_some_iff d 0 _ k).mp (h.bound k (by omega))
    cases hstyle : d.style with
    | question =>
        simp only [hstyle] at hbound
        rwa [List.getElem?_append_left (by omega)] at hbound
    | dollar =>
        simp only [hstyle, List.mem_append] at hbound
        refine hbound.resolve_right fun hmem => ?_
        have hrange := List.mem_range'_1.mp (hmore.subset hmem)
        omega
  · rintro ⟨h, hm⟩
    have heq : more = List.range' n m := hmore.eq_of_length (by rw [hm, List.length_range'])
    refine ⟨by rw [List.length_append, h.count, hm], fun k hk => ?_⟩
    refine (boundSlot_eq_some_iff d 0 _ k).mpr ?_
    have hleft := fun hkn : k < n => (boundSlot_eq_some_iff d 0 _ k).mp (h.bound k hkn)
    cases hstyle : d.style with
    | question =>
        simp only [hstyle] at hleft
        by_cases hkn : k < n
        · simp only
          rw [List.getElem?_append_left (by rw [h.count]; exact hkn)]
          exact hleft hkn
        · simp only [heq]
          rw [List.getElem?_append_right (by rw [h.count]; omega), h.count,
            List.getElem?_range' (by omega)]
          exact congrArg some (by omega)
    | dollar =>
        simp only [hstyle] at hleft
        simp only [heq, List.mem_append, List.mem_range'_1]
        by_cases hkn : k < n
        · exact .inl (hleft hkn)
        · exact .inr (by omega)

/-! ## Rendered statements -/

/-- What is known of every rendered statement. -/
theorem render_carries {schema : Schema} {dialect : DialectName} {offset : ℕ} {c : Condition}
    {stmt : Statement} (h : render schema dialect offset c = .ok stmt) :
    stmt.sql.Readable dialect ∧
      stmt.sql.slots.Sublist (List.range' offset stmt.args.length) ∧
      (stmt.sql.slots.length = stmt.args.length ↔ c.KeepsBindings schema dialect) ∧
      (stmt.sql = [] ↔ c.tree.folds = some true) := by
  obtain ⟨t, ht, rfl⟩ := (render_eq_ok_iff schema dialect offset c stmt).mp h
  obtain ⟨hreadable, hslots, hargs, hempty⟩ :=
    ((t.number offset).result_carries dialect).statement t.values
  have hall := t.slots_number offset
  have hlength : ∀ fs : List (Fragment ℕ), (fs.flatMap Fragment.slots).length =
      Skeleton.total (fun f => f.slots.length) fs := fun fs => by
    induction fs with
    | nil => rfl
    | cons f fs ih => rw [List.flatMap_cons, List.length_append, ih, Skeleton.total]
  refine ⟨hreadable, ?_, ?_, ?_⟩
  · rw [hslots, hargs, ← hall]
    exact (t.number offset).kept_sublist.flatMap _
  · rw [← keepsBindings_iff ht offset, ← Skeleton.total_kept_eq_iff, hslots, hargs, hlength,
      ← hlength (t.number offset).atoms, hall, List.length_range']
  · rw [hempty, ← (t.alike_number offset).folds_eq, ← (Skeleton.alike_of_mapM ht).folds_eq]

/-! ## Appended filters -/

/-- The filter folds to true, or no part of it that folds to a constant binds a value. -/
def Condition.AppendsAligned (schema : Schema) (dialect : DialectName) (c : Condition) : Prop :=
  c.tree.folds = some true ∨ c.KeepsBindings schema dialect

/-- A where clause whose texts can be read on their own. -/
def WhereClause.Readable (d : DialectName) (w : WhereClause) : Prop :=
  ∀ sql ∈ w.conditions, sql.Readable d

/-- A clause of readable parts is readable. -/
theorem WhereClause.Readable.sql {d : DialectName} {w : WhereClause} (h : w.Readable d) :
    w.sql.Readable d :=
  SqlText.Readable.joinAnd h

private theorem slots_joinAnd (sqls : List SqlText) :
    SqlText.slots (joinAnd sqls) = sqls.flatMap SqlText.slots := by
  induction sqls with
  | nil => rfl
  | cons sql rest ih =>
      cases rest with
      | nil => simp [joinAnd]
      | cons next rest =>
          rw [joinAnd_cons_cons, SqlText.slots_append, SqlText.slots_cons, ih]
          rfl

private theorem slots_add (w : WhereClause) (sql : SqlText) (args : List Arg) :
    (w.add sql args).sql.slots = w.sql.slots ++ sql.slots := by
  simp [WhereClause.sql, WhereClause.add, slots_joinAnd]

private theorem readable_addStatement {d : DialectName} {w : WhereClause} {stmt : Statement}
    (hw : w.Readable d) (hstmt : stmt.sql.Readable d) : (w.addStatement stmt).Readable d := by
  unfold WhereClause.addStatement
  split
  · exact hw
  · intro sql hsql
    rcases List.mem_append.mp hsql with hold | hnew
    · exact hw sql hold
    · rw [List.mem_singleton.mp hnew]
      exact hstmt.paren

private theorem addStatement_matched {schema : Schema} {d : DialectName} {w : WhereClause}
    {c : Condition} {stmt : Statement} (hle : w.sql.slots.length ≤ w.args.length)
    (h : render schema d w.args.length c = .ok stmt) :
    (Matched d 0 (w.addStatement stmt).sql.slots (w.addStatement stmt).args.length ↔
      Matched d 0 w.sql.slots w.args.length ∧ c.AppendsAligned schema d) ∧
    (w.addStatement stmt).sql.slots.length ≤ (w.addStatement stmt).args.length := by
  obtain ⟨-, hsub, hkeeps, hempty⟩ := render_carries h
  have hmore : stmt.sql.slots.length ≤ stmt.args.length := by simpa using hsub.length_le
  unfold WhereClause.addStatement Condition.AppendsAligned
  split
  · next hnil => simp [hempty.mp hnil, hle]
  · next hcons =>
      have hfolds : c.tree.folds ≠ some true := fun hf => hcons (hempty.mpr hf)
      have hparen : SqlText.slots (.openParen :: stmt.sql ++ [.closeParen]) = stmt.sql.slots := by
        simp [tokenSlots]
      have hargs : (w.add (.openParen :: stmt.sql ++ [.closeParen]) stmt.args).args.length =
          w.args.length + stmt.args.length := List.length_append
      rw [slots_add, hparen, hargs, matched_append_iff hle hsub, hkeeps]
      refine ⟨by simp [hfolds], ?_⟩
      rw [List.length_append]
      omega

/-- Appending filters to an aligned where clause keeps it aligned exactly when each filter
folds to true or loses no binding. -/
theorem appendConditions_matched {engine : Engine} {d : DialectName} {filters : List String}
    {w w' : WhereClause} (hw : w.Readable d) (hle : w.sql.slots.length ≤ w.args.length)
    (h : appendConditions engine d filters w = .ok w') :
    w'.Readable d ∧ (Matched d 0 w'.sql.slots w'.args.length ↔
      Matched d 0 w.sql.slots w.args.length ∧
        ∀ f ∈ filters, ∀ c, engine.compile f = .ok c →
          c.AppendsAligned engine.context.schema d) := by
  induction filters generalizing w with
  | nil => cases h; exact ⟨hw, by simp⟩
  | cons f filters ih =>
      obtain ⟨stmt, hstmt, h⟩ := bind_ok h
      obtain ⟨c, hc, hrender⟩ := bind_ok hstmt
      obtain ⟨hstep, hle'⟩ := addStatement_matched hle hrender
      have hreadable := readable_addStatement hw (render_carries hrender).1
      obtain ⟨hlast, hrest⟩ := ih hreadable hle' h
      refine ⟨hlast, ?_⟩
      rw [hrest, hstep, List.forall_mem_cons]
      simp only [hc, Except.ok.injEq, forall_eq', and_assoc]

/-- Placeholder alignment of the renderer and of appended filters.  A rendered statement is
aligned exactly when no part of its condition that folds to a constant binds a value; a where
clause stays aligned exactly when each appended filter folds to true or has no such part. -/
theorem placeholders_aligned_iff (d : DialectName) :
    (∀ (schema : Schema) (offset : ℕ) (c : Condition) (stmt : Statement),
      render schema d offset c = .ok stmt →
        (Aligned d offset stmt.sql stmt.args ↔ c.KeepsBindings schema d)) ∧
    (∀ (engine : Engine) (filters : List String) (w w' : WhereClause),
      w.Readable d → Aligned d 0 w.sql w.args → appendConditions engine d filters w = .ok w' →
        (Aligned d 0 w'.sql w'.args ↔ ∀ f ∈ filters, ∀ c, engine.compile f = .ok c →
          c.AppendsAligned engine.context.schema d)) := by
  constructor
  · intro schema offset c stmt h
    obtain ⟨hreadable, hsub, hkeeps, -⟩ := render_carries h
    rw [aligned_iff_matched hreadable, matched_iff_of_sublist hsub, hkeeps]
  · intro engine filters w w' hw haligned h
    have hmatched := (aligned_iff_matched hw.sql).mp haligned
    obtain ⟨hreadable, hiff⟩ := appendConditions_matched hw (le_of_eq hmatched.count) h
    rw [aligned_iff_matched hreadable.sql]
    exact hiff.trans (and_iff_right hmatched)

/-- {lit}`(visibility == "PUBLIC" || true) && pinned`: the disjunction folds to true after its
first operand has bound a value. -/
def discardingExpr : Expr :=
  .call none "_&&_" [
    .call none "_||_" [
      .call none "_==_" [.ident "visibility", .const (.stringValue "PUBLIC")],
      .const (.boolValue true)],
    .ident "pinned"]

/-- An engine for memo filters that accepts one expression. -/
def memoEngine (expr : Expr) : Engine where
  context := {
    schema := newSchema
    now := 0
    parseTimestamp := fun _ => .error "no timestamp"
    parseDuration := fun _ => .error "no duration" }
  check := fun _ => .ok expr

/-- The discarding filter is accepted, and neither its statement nor a where clause it is
appended to is aligned: one bound value, no placeholder. -/
theorem placeholders_not_aligned :
    (memoEngine discardingExpr).compile "f" = .ok (.logical .and
      (.logical .or
        (.comparison (.fieldRef "visibility") .eq (.literal (.str "PUBLIC"))) (.constant true))
      (.fieldPredicate "pinned")) ∧
    (∃ stmt, (memoEngine discardingExpr).compileToStatement "f" .sqlite 0 = .ok stmt ∧
      ¬ Aligned .sqlite 0 stmt.sql stmt.args) ∧
    ∃ w, appendConditions (memoEngine discardingExpr) .sqlite ["f"] ⟨[], []⟩ = .ok w ∧
      ¬ Aligned .sqlite 0 w.sql w.args := by
  refine ⟨rfl, ⟨_, rfl, fun h => ?_⟩, ⟨_, rfl, fun h => ?_⟩⟩
  · exact absurd h.count (by decide)
  · exact absurd h.count (by decide)

/-- {lit}`visibility == "PUBLIC" && pinned` loses nothing. -/
def keepingExpr : Expr :=
  .call none "_&&_" [
    .call none "_==_" [.ident "visibility", .const (.stringValue "PUBLIC")],
    .ident "pinned"]

/-- The alignment theorem at a filter that keeps its binding and at one that loses it. -/
theorem placeholders_aligned_iff_example :
    (∃ c stmt, (memoEngine keepingExpr).compile "f" = .ok c ∧
      render newSchema .postgres 3 c = .ok stmt ∧
        (Aligned .postgres 3 stmt.sql stmt.args ↔ c.KeepsBindings newSchema .postgres)) ∧
    ∃ w, appendConditions (memoEngine discardingExpr) .sqlite ["f"] ⟨[], []⟩ = .ok w ∧
      (Aligned .sqlite 0 w.sql w.args ↔ ∀ f ∈ ["f"], ∀ c,
        (memoEngine discardingExpr).compile f = .ok c →
          c.AppendsAligned (memoEngine discardingExpr).context.schema .sqlite) := by
  refine ⟨⟨_, _, rfl, rfl, (placeholders_aligned_iff .postgres).1 newSchema 3 _ _ rfl⟩, _, rfl,
    (placeholders_aligned_iff .sqlite).2 (memoEngine discardingExpr) ["f"] ⟨[], []⟩ _ ?_ ?_ rfl⟩
  · simp [WhereClause.Readable]
  · exact ⟨rfl, rfl, by simp⟩

end Filter
end MemosNote
