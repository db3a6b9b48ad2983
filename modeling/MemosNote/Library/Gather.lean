import Mathlib.Data.List.Induction
import Mathlib.Data.List.Nodup

/-!
# Gathering a list by a key

Elements of one key are brought together at the place of the first of them, and each element is
kept once.

Main results:

- Theorem {lit}`nodup_gather`: each element once.
- Theorem {lit}`pairwise_gather`: the order.
- Theorem {lit}`block_infix_gather`: the elements of one key are together.
- Theorem {lit}`gather_gather`: what is gathered stays as it is.
-/

namespace MemosNote
namespace Library

section EraseDups

variable {α β : Type} [DecidableEq α] [DecidableEq β]

/-- A further element is kept unless it is there already. -/
theorem eraseDups_concat (list : List α) (a : α) :
    (list ++ [a]).eraseDups = if a ∈ list then list.eraseDups else list.eraseDups ++ [a] := by
  rw [List.eraseDups_append]
  by_cases h : a ∈ list
  · simp [List.removeAll, h]
  · simp [List.removeAll, h, List.eraseDups_cons]

theorem nodup_eraseDups (list : List α) : list.eraseDups.Nodup := by
  induction list using List.reverseRecOn with
  | nil => simp
  | append_singleton list a ih =>
      rw [eraseDups_concat]
      by_cases h : a ∈ list
      · rw [if_pos h]
        exact ih
      · rw [if_neg h, ← List.concat_eq_append]
        exact ih.concat (by simpa using h)

theorem eraseDups_eq_self {list : List α} (h : list.Nodup) : list.eraseDups = list := by
  induction list using List.reverseRecOn with
  | nil => rfl
  | append_singleton list a ih =>
      rcases List.nodup_append.mp h with ⟨hlist, -, hnew⟩
      have ha : a ∉ list := fun ha => hnew a ha a (List.mem_singleton_self a) rfl
      rw [eraseDups_concat, if_neg ha, ih hlist]

/-- Of equal elements one is kept. -/
theorem eraseDups_constant {list : List α} {a : α} (h : ∀ b ∈ list, b = a) (hne : list ≠ []) :
    list.eraseDups = [a] := by
  cases list with
  | nil => exact absurd rfl hne
  | cons b rest =>
      have hrest : (rest.filter fun c => !c == b) = [] := by
        rw [List.filter_eq_nil_iff]
        intro c hc
        rw [h c (List.mem_cons_of_mem b hc), h b List.mem_cons_self]
        simp
      rw [List.eraseDups_cons, hrest, h b List.mem_cons_self]
      rfl

theorem eraseDups_filter (p : α → Bool) (list : List α) :
    (list.filter p).eraseDups = list.eraseDups.filter p := by
  induction list using List.reverseRecOn with
  | nil => rfl
  | append_singleton list a ih =>
      rw [List.filter_append, eraseDups_concat]
      by_cases hp : p a
      · rw [List.filter_cons_of_pos hp, List.filter_nil, eraseDups_concat, ih]
        by_cases h : a ∈ list
        · simp [h, hp]
        · simp [h, hp]
      · rw [List.filter_cons_of_neg hp, List.filter_nil, List.append_nil, ih]
        by_cases h : a ∈ list
        · simp [h]
        · simp [h, hp]

/-- Elements are kept in the order in which they first occur. -/
theorem pairwise_eraseDups (list : List α) :
    list.eraseDups.Pairwise fun a b => list.idxOf a < list.idxOf b := by
  induction list using List.reverseRecOn with
  | nil => simp
  | append_singleton list a ih =>
      have hearlier : list.eraseDups.Pairwise fun b c =>
          (list ++ [a]).idxOf b < (list ++ [a]).idxOf c := by
        refine ih.imp_of_mem fun {b c} hb hc hlt => ?_
        rw [List.idxOf_append_of_mem (List.mem_eraseDups.mp hb),
          List.idxOf_append_of_mem (List.mem_eraseDups.mp hc)]
        exact hlt
      rw [eraseDups_concat]
      by_cases h : a ∈ list
      · rw [if_pos h]
        exact hearlier
      · rw [if_neg h, List.pairwise_append]
        refine ⟨hearlier, List.pairwise_singleton _ _, ?_⟩
        intro b hb c hc
        rcases List.mem_singleton.mp hc with rfl
        rw [List.idxOf_append_of_mem (List.mem_eraseDups.mp hb), List.idxOf_append_of_notMem h]
        have hlt := List.idxOf_lt_length_of_mem (List.mem_eraseDups.mp hb)
        omega

end EraseDups

variable {α κ : Type} [DecidableEq α] [DecidableEq κ] {key : α → κ} {list : List α}

/-- The elements of a list once each, those of one key together. -/
def gather (key : α → κ) (list : List α) : List α :=
  (list.map key).eraseDups.flatMap fun k => list.eraseDups.filter fun a => key a = k

theorem nodup_gather : (gather key list).Nodup := by
  rw [gather, List.nodup_flatMap]
  refine ⟨fun k _ => (nodup_eraseDups list).filter _, ?_⟩
  refine (nodup_eraseDups (list.map key)).imp fun {k k'} hne => ?_
  intro a ha ha'
  have hk : key a = k := by simpa using (List.mem_filter.mp ha).2
  have hk' : key a = k' := by simpa using (List.mem_filter.mp ha').2
  exact hne (hk.symm.trans hk')

/-- Keys come in the order in which they first occur, and so do the elements of one key. -/
theorem pairwise_gather : (gather key list).Pairwise fun a b =>
    (list.map key).idxOf (key a) < (list.map key).idxOf (key b) ∨
      key a = key b ∧ list.idxOf a < list.idxOf b := by
  rw [gather, List.pairwise_flatMap]
  constructor
  · intro k _
    refine ((pairwise_eraseDups list).filter _).imp_of_mem fun {a b} ha hb hlt => ?_
    have hk : key a = k := by simpa using (List.mem_filter.mp ha).2
    have hk' : key b = k := by simpa using (List.mem_filter.mp hb).2
    exact .inr ⟨hk.trans hk'.symm, hlt⟩
  · refine (pairwise_eraseDups (list.map key)).imp fun {k k'} hlt => ?_
    intro a ha b hb
    have hk : key a = k := by simpa using (List.mem_filter.mp ha).2
    have hk' : key b = k' := by simpa using (List.mem_filter.mp hb).2
    rw [hk, hk']
    exact .inl hlt

/-- The elements of one key. -/
theorem filter_gather (k : κ) :
    (gather key list).filter (fun a => key a = k) = list.eraseDups.filter fun a => key a = k := by
  have hblock : ∀ ks : List κ, ks.Nodup →
      (ks.flatMap fun k' => list.eraseDups.filter fun a => key a = k').filter (fun a => key a = k) =
        if k ∈ ks then list.eraseDups.filter fun a => key a = k else [] := by
    intro ks hks
    induction ks with
    | nil => rfl
    | cons k' ks ih =>
        rcases List.nodup_cons.mp hks with ⟨hnew, hrest⟩
        rw [List.flatMap_cons, List.filter_append, ih hrest, List.filter_filter]
        by_cases hk : k' = k
        · subst hk
          simp [hnew]
        · have hnone : (list.eraseDups.filter fun a => decide (key a = k) && decide (key a = k')) =
              [] := by
            rw [List.filter_eq_nil_iff]
            intro a _ ha
            have hboth : key a = k ∧ key a = k' := by simpa using ha
            exact hk (hboth.2.symm.trans hboth.1)
          simp [hnone, Ne.symm hk]
  rw [gather, hblock _ (nodup_eraseDups _)]
  by_cases hk : k ∈ (list.map key).eraseDups
  · rw [if_pos hk]
  · rw [if_neg hk]
    symm
    rw [List.filter_eq_nil_iff]
    intro a ha hkey
    have hsame : key a = k := by simpa using hkey
    refine hk (List.mem_eraseDups.mpr ?_)
    rw [← hsame]
    exact List.mem_map_of_mem (List.mem_eraseDups.mp ha)

/-- The elements of one key are together. -/
theorem block_infix_gather (k : κ) :
    (gather key list).filter (fun a => key a = k) <:+: gather key list := by
  rw [filter_gather]
  by_cases hk : k ∈ (list.map key).eraseDups
  · rcases List.append_of_mem hk with ⟨before, after, hsplit⟩
    rw [gather, hsplit, List.flatMap_append, List.flatMap_cons]
    exact ⟨_, _, (List.append_assoc _ _ _)⟩
  · have hnone : (list.eraseDups.filter fun a => key a = k) = [] := by
      rw [List.filter_eq_nil_iff]
      intro a ha hkey
      have hsame : key a = k := by simpa using hkey
      refine hk (List.mem_eraseDups.mpr ?_)
      rw [← hsame]
      exact List.mem_map_of_mem (List.mem_eraseDups.mp ha)
    rw [hnone]
    exact List.nil_infix

/-- Keeping elements by their key and gathering them commute. -/
theorem gather_filter (p : κ → Bool) :
    gather key (list.filter fun a => p (key a)) = (gather key list).filter fun a => p (key a) := by
  have hkeys : (list.filter fun a => p (key a)).map key = (list.map key).filter p := by
    rw [List.filter_map]
    rfl
  rw [gather, gather, hkeys, eraseDups_filter, eraseDups_filter, List.filter_flatMap]
  induction (list.map key).eraseDups with
  | nil => rfl
  | cons k ks ih =>
      rw [List.flatMap_cons, ← ih]
      by_cases hp : p k
      · rw [List.filter_cons_of_pos hp, List.flatMap_cons]
        congr 1
        rw [List.filter_filter, List.filter_filter]
        exact List.filter_congr fun a _ => by rw [Bool.and_comm]
      · rw [List.filter_cons_of_neg hp]
        have hnone : ((list.eraseDups.filter fun a => key a = k).filter fun a => p (key a)) = [] := by
          rw [List.filter_eq_nil_iff]
          intro a ha hkeep
          have hk : key a = k := by simpa using (List.mem_filter.mp ha).2
          rw [hk] at hkeep
          exact hp hkeep
        rw [hnone, List.nil_append]

omit [DecidableEq α] in
/-- The keys of blocks, each of one key. -/
theorem keys_flatMap {ks : List κ} {block : κ → List α} (hks : ks.Nodup)
    (hkey : ∀ k ∈ ks, ∀ a ∈ block k, key a = k) (hne : ∀ k ∈ ks, block k ≠ []) :
    ((ks.flatMap block).map key).eraseDups = ks := by
  induction ks using List.reverseRecOn with
  | nil => rfl
  | append_singleton ks k ih =>
      rcases List.nodup_append.mp hks with ⟨hlist, -, hnew⟩
      have hearlier := ih hlist (fun k' hk' => hkey k' (List.mem_append_left _ hk'))
        fun k' hk' => hne k' (List.mem_append_left _ hk')
      have hlast : k ∈ ks ++ [k] := List.mem_append_right _ (List.mem_singleton_self k)
      have hconstant : ∀ k' ∈ (block k).map key, k' = k := by
        intro k' hk'
        rcases List.mem_map.mp hk' with ⟨a, ha, rfl⟩
        exact hkey k hlast a ha
      have hk : k ∉ (ks.flatMap block).map key := by
        rw [← List.mem_eraseDups, hearlier]
        exact fun hk => hnew k hk k (List.mem_singleton_self k) rfl
      have hkept : ((block k).map key).removeAll ((ks.flatMap block).map key) =
          (block k).map key := by
        rw [List.removeAll, List.filter_eq_self]
        intro k' hk'
        rw [hconstant k' hk']
        simpa using hk
      rw [List.flatMap_append, List.map_append, List.eraseDups_append, hearlier,
        List.flatMap_singleton, hkept, eraseDups_constant hconstant (by simpa using hne k hlast)]

/-- The keys in the order in which they first occur. -/
theorem keys_gather : ((gather key list).map key).eraseDups = (list.map key).eraseDups := by
  refine keys_flatMap (nodup_eraseDups _) ?_ ?_
  · intro k _ a ha
    simpa using (List.mem_filter.mp ha).2
  · intro k hk hnil
    rcases List.mem_map.mp (List.mem_eraseDups.mp hk) with ⟨a, ha, rfl⟩
    have hmem : a ∈ list.eraseDups.filter fun b => key b = key a :=
      List.mem_filter.mpr ⟨List.mem_eraseDups.mpr ha, by simp⟩
    rw [hnil] at hmem
    cases hmem

theorem gather_gather : gather key (gather key list) = gather key list := by
  rw [gather, keys_gather, eraseDups_eq_self nodup_gather]
  simp only [filter_gather]
  rfl

end Library
end MemosNote
