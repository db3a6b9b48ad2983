import Mathlib.Data.List.Basic
import Mathlib.Order.Defs.PartialOrder

/-!
# Walking a tree

A walk enters a node, walks its children and leaves the node.  When it enters a node it may skip the
children, or stop.

Main results:

- Theorem {lit}`walkAll_le`: a walk makes a state larger if its steps do.
- Theorem {lit}`walk_stopping`: a walk that may stop gives what the whole walk gives, or something
  smaller.
-/

namespace MemosNote
namespace Library
namespace TreeWalk

inductive NodeTree (α : Type) where
  | node (label : α) (children : List (NodeTree α))

inductive Status where
  | goOn
  | skipChildren
  | stop
deriving DecidableEq, Repr

variable {α σ : Type}

/-- What a walk does at a node. -/
structure Visitor (α σ : Type) where
  enter : σ → α → σ × Status
  leave : σ → α → σ

mutual

/-- The state after a walk, and whether the walk stopped. -/
def walk (v : Visitor α σ) : NodeTree α → σ → σ × Bool
  | .node label children, s =>
      match v.enter s label with
      | (s, .stop) => (s, true)
      | (s, .skipChildren) => (v.leave s label, false)
      | (s, .goOn) =>
          match walkAll v children s with
          | (s, true) => (s, true)
          | (s, false) => (v.leave s label, false)

def walkAll (v : Visitor α σ) : List (NodeTree α) → σ → σ × Bool
  | [], s => (s, false)
  | tree :: trees, s =>
      match walk v tree s with
      | (s, true) => (s, true)
      | (s, false) => walkAll v trees s

end

/-! ## Walks that stop -/

/-- A visitor that does what another one does that never stops, or stops after it, in a state with
some property. -/
structure Stopping (v w : Visitor α σ) (p : σ → Prop) : Prop where
  enter : ∀ s label, w.enter s label = v.enter s label ∨
    w.enter s label = ((v.enter s label).1, .stop) ∧ p (v.enter s label).1
  leave : ∀ s label, w.leave s label = v.leave s label
  goesOn : ∀ s label, (v.enter s label).2 ≠ .stop

variable {v w : Visitor α σ} {p : σ → Prop}

mutual

/-- The whole walk does not stop. -/
theorem walk_goesOn (h : Stopping v w p) : ∀ (tree : NodeTree α) (s : σ), (walk v tree s).2 = false
  | .node label children, s => by
      have hentered := h.goesOn s label
      have hall := walkAll_goesOn h children (v.enter s label).1
      rw [walk]
      rcases hfirst : v.enter s label with ⟨s₁, _ | _ | _⟩
      · rw [hfirst] at hall
        dsimp only at hall ⊢
        rcases hwalked : walkAll v children s₁ with ⟨s₂, _ | _⟩
        · rfl
        · rw [hwalked] at hall
          cases hall
      · rfl
      · rw [hfirst] at hentered
        exact absurd rfl hentered

theorem walkAll_goesOn (h : Stopping v w p) :
    ∀ (trees : List (NodeTree α)) (s : σ), (walkAll v trees s).2 = false
  | [], s => rfl
  | tree :: trees, s => by
      have hfirst := walk_goesOn h tree s
      rw [walkAll]
      rcases hwalked : walk v tree s with ⟨s₁, _ | _⟩
      · exact walkAll_goesOn h trees s₁
      · rw [hwalked] at hfirst
        cases hfirst

end

variable [Preorder σ]

/-- The steps of a walk make its state larger. -/
structure Grows (v : Visitor α σ) : Prop where
  enter : ∀ s label, s ≤ (v.enter s label).1
  leave : ∀ s label, s ≤ v.leave s label

mutual

/-- Behind a node's own step, a walk makes a state larger. -/
theorem enter_le_walk (h : Grows v) : ∀ (label : α) (children : List (NodeTree α)) (s : σ),
    (v.enter s label).1 ≤ (walk v (.node label children) s).1
  | label, children, s => by
      rw [walk]
      rcases hentered : v.enter s label with ⟨s₁, _ | _ | _⟩
      · have hrest := walkAll_le h children s₁
        dsimp only
        rcases hwalked : walkAll v children s₁ with ⟨s₂, _ | _⟩
        · rw [hwalked] at hrest
          exact le_trans hrest (h.leave s₂ label)
        · rw [hwalked] at hrest
          exact hrest
      · exact h.leave s₁ label
      · exact le_rfl

/-- A walk makes a state larger if its steps do. -/
theorem walkAll_le (h : Grows v) : ∀ (trees : List (NodeTree α)) (s : σ), s ≤ (walkAll v trees s).1
  | [], s => le_rfl
  | .node label children :: trees, s => by
      have hfirst := le_trans (h.enter s label) (enter_le_walk h label children s)
      rw [walkAll]
      rcases hwalked : walk v (.node label children) s with ⟨s₁, _ | _⟩
      · rw [hwalked] at hfirst
        exact le_trans hfirst (walkAll_le h trees s₁)
      · rw [hwalked] at hfirst
        exact hfirst

end

/-- How a walk that may stop compares to the whole walk. -/
structure Compares (p : σ → Prop) (r r' : σ × Bool) : Prop where
  whole : r'.2 = false
  same : r.2 = false → r.1 = r'.1
  stopped : r.2 = true → p r.1 ∧ r.1 ≤ r'.1

theorem compares_self {r : σ × Bool} (h : r.2 = false) : Compares p r r where
  whole := h
  same _ := rfl
  stopped htrue := absurd (h.symm.trans htrue) Bool.false_ne_true

theorem compares_of_stopped {s s' : σ} (hp : p s) (hle : s ≤ s') :
    Compares p (s, true) (s', false) where
  whole := rfl
  same hfalse := absurd hfalse.symm Bool.false_ne_true
  stopped _ := ⟨hp, hle⟩

mutual

/-- A walk that may stop gives what the whole walk gives, or something smaller. -/
theorem walk_stopping (h : Stopping v w p) (hgrows : Grows v) :
    ∀ (tree : NodeTree α) (s : σ), Compares p (walk w tree s) (walk v tree s)
  | .node label children, s => by
      have hwhole := walk_goesOn h (.node label children) s
      rcases h.enter s label with hsame | ⟨hstop, hp⟩
      · have hchildren := walkAll_stopping h hgrows children (v.enter s label).1
        rw [walk, walk, hsame]
        rw [walk] at hwhole
        rcases hentered : v.enter s label with ⟨s₁, _ | _ | _⟩
        · rw [hentered] at hchildren
          dsimp only at hchildren ⊢
          rcases hv : walkAll v children s₁ with ⟨s₂, _ | _⟩
          · rw [hv] at hchildren
            rcases hw : walkAll w children s₁ with ⟨s₃, _ | _⟩
            · rw [hw] at hchildren
              have hstate : s₃ = s₂ := hchildren.same rfl
              dsimp only
              rw [hstate, h.leave]
              exact compares_self rfl
            · rw [hw] at hchildren
              rcases hchildren.stopped rfl with ⟨hp, hle⟩
              exact compares_of_stopped hp (le_trans hle (hgrows.leave s₂ label))
          · rw [hv] at hchildren
            cases hchildren.whole
        · dsimp only
          rw [h.leave]
          exact compares_self rfl
        · rw [hentered] at hwhole
          cases hwhole
      · have hlarger := enter_le_walk hgrows label children s
        have hstopped : walk w (.node label children) s = ((v.enter s label).1, true) := by
          rw [walk, hstop]
        rw [hstopped]
        exact ⟨hwhole, fun hfalse => absurd hfalse.symm Bool.false_ne_true,
          fun _ => ⟨hp, hlarger⟩⟩

theorem walkAll_stopping (h : Stopping v w p) (hgrows : Grows v) :
    ∀ (trees : List (NodeTree α)) (s : σ), Compares p (walkAll w trees s) (walkAll v trees s)
  | [], s => compares_self rfl
  | tree :: trees, s => by
      have hfirst := walk_stopping h hgrows tree s
      rw [walkAll, walkAll]
      rcases hv : walk v tree s with ⟨s₂, _ | _⟩
      · rw [hv] at hfirst
        rcases hw : walk w tree s with ⟨s₁, _ | _⟩
        · rw [hw] at hfirst
          have hstate : s₁ = s₂ := hfirst.same rfl
          rw [hstate]
          exact walkAll_stopping h hgrows trees s₂
        · rw [hw] at hfirst
          rcases hfirst.stopped rfl with ⟨hp, hle⟩
          exact ⟨walkAll_goesOn h trees s₂, fun hfalse => absurd hfalse.symm Bool.false_ne_true,
            fun _ => ⟨hp, le_trans hle (walkAll_le hgrows trees s₂)⟩⟩
      · rw [hv] at hfirst
        cases hfirst.whole

end

end TreeWalk
end Library
end MemosNote
