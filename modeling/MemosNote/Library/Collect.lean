import MemosNote.Library.OffsetPages

/-!
# Loops that collect what their rounds yield

A round yields a value, and the state of the next round unless it is the last one.

Main results:

- Theorem {lit}`collect_of_rounds`: what a loop collects whose rounds are known.
- Theorem {lit}`collect_eq_map`: the same where the values are known.
- Theorem {lit}`collect_unique`: with more turns nothing else is collected.
- Theorem {lit}`collect_pages`: what following the tokens of pages collects.
-/

namespace MemosNote
namespace Library

variable {σ β : Type} {round : σ → Option (β × Option σ)}

/-- The values of the rounds, if the turns are enough and no round fails. -/
def collect (round : σ → Option (β × Option σ)) : ℕ → σ → Option (List β)
  | 0, _ => none
  | turns + 1, s =>
      match round s with
      | none => none
      | some (b, none) => some [b]
      | some (b, some s') => (collect round turns s').map (b :: ·)

/-- The rounds up to a last one, each with what holds of its state and of its value. -/
structure Rounds (round : σ → Option (β × Option σ)) (inv : ℕ → σ → Prop) (yields : ℕ → β → Prop)
    (last : ℕ) : Prop where
  goes : ∀ {k s}, k < last → inv k s →
    ∃ b s', round s = some (b, some s') ∧ yields k b ∧ inv (k + 1) s'
  ends : ∀ {s}, inv last s → ∃ b, round s = some (b, none) ∧ yields last b

variable {inv : ℕ → σ → Prop} {yields : ℕ → β → Prop} {last : ℕ}

theorem collect_from (h : Rounds round inv yields last) {left k : ℕ} (hk : k + left = last) {s : σ}
    (hs : inv k s) : ∃ values, collect round (left + 1) s = some values ∧
      values.length = left + 1 ∧ ∀ i b, values[i]? = some b → yields (k + i) b := by
  induction left generalizing k s with
  | zero =>
      have hlast : k = last := hk
      subst hlast
      rcases h.ends hs with ⟨b, hround, hb⟩
      refine ⟨[b], by rw [collect, hround], rfl, fun i b' hget => ?_⟩
      cases i with
      | zero =>
          rcases Option.some.inj hget with rfl
          exact hb
      | succ i => cases hget
  | succ left ih =>
      rcases h.goes (by omega) hs with ⟨b, s', hround, hb, hs'⟩
      rcases ih (k := k + 1) (by omega) hs' with ⟨values, hvalues, hlength, hyields⟩
      refine ⟨b :: values, ?_, congrArg Nat.succ hlength, fun i b' hget => ?_⟩
      · rw [collect, hround]
        dsimp only
        rw [hvalues, Option.map_some]
      · cases i with
        | zero =>
            rcases Option.some.inj hget with rfl
            exact hb
        | succ i =>
            have hlater := hyields i b' hget
            rw [Nat.add_right_comm, Nat.add_assoc] at hlater
            exact hlater

/-- What a loop collects: one value of every round. -/
theorem collect_of_rounds (h : Rounds round inv yields last) {s : σ} (hs : inv 0 s) :
    ∃ values, collect round (last + 1) s = some values ∧ values.length = last + 1 ∧
      ∀ i b, values[i]? = some b → yields i b := by
  rcases collect_from h (Nat.zero_add last) hs with ⟨values, hvalues, hlength, hyields⟩
  refine ⟨values, hvalues, hlength, fun i b hget => ?_⟩
  have hvalue := hyields i b hget
  rw [Nat.zero_add] at hvalue
  exact hvalue

/-- Rounds whose values are known yield just these. -/
theorem collect_eq_map {f : ℕ → β} (h : Rounds round inv (fun k b => b = f k) last) {s : σ}
    (hs : inv 0 s) : collect round (last + 1) s = some ((List.range (last + 1)).map f) := by
  rcases collect_of_rounds h hs with ⟨values, hvalues, hlength, hyields⟩
  refine hvalues.trans (congrArg some (List.ext_getElem ?_ fun i hi hi' => ?_))
  · rw [hlength, List.length_map, List.length_range]
  · rw [hyields i _ (List.getElem?_eq_getElem hi), List.getElem_map, List.getElem_range]

theorem collect_unique {turns turns' : ℕ} {s : σ} {values values' : List β}
    (h : collect round turns s = some values) (h' : collect round turns' s = some values') :
    values = values' := by
  induction turns generalizing turns' s values values' with
  | zero => cases h
  | succ turns ih =>
      cases turns' with
      | zero => cases h'
      | succ turns' =>
          rw [collect] at h h'
          cases hround : round s with
          | none =>
              rw [hround] at h
              cases h
          | some next =>
              rcases next with ⟨b, s'⟩
              rw [hround] at h h'
              cases s' with
              | none => exact (Option.some.inj h).symm.trans (Option.some.inj h')
              | some s' =>
                  rcases Option.map_eq_some_iff.mp h with ⟨rest, hrest, rfl⟩
                  rcases Option.map_eq_some_iff.mp h' with ⟨rest', hrest', rfl⟩
                  rw [ih hrest hrest']

/-! ## Pages -/

section

variable {σ α β γ : Type} {round : σ → Option (β × Option σ)}

/-- The number of rounds after the first one. -/
theorem lastPage {n size : ℕ} (hpos : 0 < size) :
    (∀ k < (n - 1) / size, (k + 1) * size < n) ∧ n ≤ ((n - 1) / size + 1) * size := by
  have hlast : n - 1 < ((n - 1) / size + 1) * size :=
    (Nat.div_lt_iff_lt_mul hpos).mp (Nat.lt_succ_self _)
  refine ⟨fun k hk => ?_, by omega⟩
  have hle : (k + 1) * size ≤ n - 1 := (Nat.le_div_iff_mul_le hpos).mp (Nat.succ_le_of_lt hk)
  have hsome : (n - 1) / size ≠ 0 := Nat.ne_of_gt (Nat.zero_lt_of_lt hk)
  have hn : n - 1 ≠ 0 := fun hzero => hsome (by rw [hzero, Nat.zero_div])
  omega

/-- The token for a page shows what is rendered of the page, and the token for the next page follows
if there are rows behind it. -/
def FollowsPages (round : σ → Option (β × Option σ)) (size : ℕ) (list : List α) (view : β → γ)
    (render : List α → γ) (place : ℕ → σ → Prop) : Prop :=
  ∀ k s, place k s → ∃ b next, round s = some (b, next) ∧
    view b = render (Page.page (k * size) size list) ∧
      if (k + 1) * size < list.length then ∃ s', next = some s' ∧ place (k + 1) s' else next = none

variable {size : ℕ} {list : List α} {view : β → γ} {render : List α → γ} {place : ℕ → σ → Prop}

/-- Following the tokens comes to an end, and shows the pages of the whole list. -/
theorem collect_pages (h : FollowsPages round size list view render place) (hpos : 0 < size) {s : σ}
    (hs : place 0 s) : ∃ turns values n, collect round turns s = some values ∧
      values.map view = (Page.pages size (fun _ => list) n).map render ∧
        (Page.pages size (fun _ => list) n).flatten = list := by
  rcases lastPage (n := list.length) hpos with ⟨hbefore, hend⟩
  have hrounds : Rounds round place (fun k b => view b = render (Page.page (k * size) size list))
      ((list.length - 1) / size) := by
    constructor
    · intro k s hk hs
      rcases h k s hs with ⟨b, next, hround, hview, hnext⟩
      rw [if_pos (hbefore k hk)] at hnext
      rcases hnext with ⟨s', rfl, hs'⟩
      exact ⟨b, s', hround, hview, hs'⟩
    · intro s hs
      rcases h _ s hs with ⟨b, next, hround, hview, hnext⟩
      rw [if_neg (Nat.not_lt.mpr hend)] at hnext
      rcases hnext with rfl
      exact ⟨b, hround, hview⟩
  rcases collect_of_rounds hrounds hs with ⟨values, hvalues, hlength, hyields⟩
  refine ⟨_, values, (list.length - 1) / size + 1, hvalues, ?_, ?_⟩
  · refine List.ext_getElem ?_ fun i hi hi' => ?_
    · rw [List.length_map, hlength, List.length_map, Page.pages, List.length_map, List.length_range]
    · rw [List.length_map] at hi
      rw [List.getElem_map, hyields i _ (List.getElem?_eq_getElem hi)]
      simp [Page.pages]
  · rw [Page.flatten_pages_const, List.take_of_length_le hend]

end

end Library
end MemosNote
