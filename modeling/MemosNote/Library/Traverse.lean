import Mathlib.Data.List.Forall2

/-!
# Maps that can fail

A map over a list that can fail gives a list of results that belong to the elements one by one.

Main results:

- Theorem {lit}`mapM_some_iff`, Theorem {lit}`mapM_ok_iff`: what the map gives, element by element.
- Theorem {lit}`foldlM_keeps`: what every step of a loop keeps.
-/

namespace MemosNote
namespace Library
namespace Traverse

variable {ε α β : Type}

theorem mapM_some_iff {f : α → Option β} {l : List α} {bs : List β} :
    l.mapM f = some bs ↔ List.Forall₂ (fun a b => f a = some b) l bs := by
  induction l generalizing bs with
  | nil => simp [eq_comm]
  | cons a l ih =>
      rw [List.mapM_cons, List.forall₂_cons_left_iff]
      constructor
      · intro h
        rcases Option.bind_eq_some_iff.mp h with ⟨b, hb, hrest⟩
        rcases Option.bind_eq_some_iff.mp hrest with ⟨rest, hl, hcons⟩
        cases hcons
        exact ⟨b, rest, hb, ih.mp hl, rfl⟩
      · rintro ⟨b, rest, hb, hl, rfl⟩
        rw [hb, ih.mpr hl]
        rfl

theorem mapM_ok_iff {f : α → Except ε β} {l : List α} {bs : List β} :
    l.mapM f = .ok bs ↔ List.Forall₂ (fun a b => f a = .ok b) l bs := by
  induction l generalizing bs with
  | nil =>
      rw [List.forall₂_nil_left_iff]
      exact ⟨fun h => by cases h; rfl, fun h => by cases h; rfl⟩
  | cons a l ih =>
      rw [List.mapM_cons, List.forall₂_cons_left_iff]
      constructor
      · intro h
        cases hfirst : f a with
        | error err =>
            rw [hfirst] at h
            cases h
        | ok b =>
            cases hrest : l.mapM f with
            | error err =>
                rw [hfirst, hrest] at h
                cases h
            | ok rest =>
                rw [hfirst, hrest] at h
                cases h
                exact ⟨b, rest, rfl, ih.mp hrest, rfl⟩
      · rintro ⟨b, rest, hb, hl, rfl⟩
        rw [hb, ih.mpr hl]
        rfl

section Forall₂

variable {R : α → β → Prop} {l : List α} {bs : List β}

/-- Every result belongs to an element. -/
theorem exists_left (h : List.Forall₂ R l bs) : ∀ b ∈ bs, ∃ a ∈ l, R a b := by
  induction h with
  | nil =>
      intro b hb
      cases hb
  | @cons a b l bs hab _ ih =>
      intro c hc
      rcases List.mem_cons.mp hc with rfl | hc
      · exact ⟨a, List.mem_cons_self, hab⟩
      · rcases ih c hc with ⟨a', ha', hR⟩
        exact ⟨a', List.mem_cons_of_mem a ha', hR⟩

/-- Every element has a result. -/
theorem exists_right (h : List.Forall₂ R l bs) : ∀ a ∈ l, ∃ b ∈ bs, R a b :=
  exists_left h.flip

/-- Elements that all have results have a list of them. -/
theorem exists_forall₂ (h : ∀ a ∈ l, ∃ b, R a b) : ∃ bs, List.Forall₂ R l bs := by
  induction l with
  | nil => exact ⟨[], .nil⟩
  | cons a l ih =>
      rcases h a List.mem_cons_self with ⟨b, hb⟩
      rcases ih fun a' ha' => h a' (List.mem_cons_of_mem a ha') with ⟨bs, hbs⟩
      exact ⟨b :: bs, hbs.cons hb⟩

end Forall₂

/-- A map over elements that it succeeds on succeeds. -/
theorem exists_mapM_ok {f : α → Except ε β} {l : List α} (h : ∀ a ∈ l, ∃ b, f a = .ok b) :
    ∃ bs, l.mapM f = .ok bs :=
  (exists_forall₂ h).imp fun _ => mapM_ok_iff.mpr

theorem ok_of_bind {x : Except ε α} {f : α → Except ε β} {b : β} (h : x >>= f = .ok b) :
    ∃ a, x = .ok a ∧ f a = .ok b := by
  cases x with
  | error err => cases h
  | ok a => exact ⟨a, rfl, h⟩

/-- What every step of a loop keeps that can fail, the loop keeps. -/
theorem foldlM_keeps {f : β → α → Except ε β} {l : List α} {P : β → Prop}
    (hstep : ∀ b a b', P b → f b a = .ok b' → P b') {b b' : β} (hb : P b)
    (h : l.foldlM f b = .ok b') : P b' := by
  induction l generalizing b with
  | nil =>
      cases h
      exact hb
  | cons a l ih =>
      rw [List.foldlM_cons] at h
      rcases ok_of_bind h with ⟨next, hfirst, hrest⟩
      exact ih (hstep b a next hb hfirst) hrest

/-- A map that never fails. -/
theorem mapM_eq_some {f : α → Option β} {g : α → β} {l : List α} (h : ∀ a ∈ l, f a = some (g a)) :
    l.mapM f = some (l.map g) :=
  mapM_some_iff.mpr (List.forall₂_map_right_iff.mpr (List.forall₂_same.mpr h))

end Traverse
end Library
end MemosNote
