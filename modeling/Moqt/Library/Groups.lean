import Mathlib.Data.List.SplitBy

/-! A sequence in groups: some of its items start a group, and the others go on with the group that
they come in.  What is in front of the first start is a group too. -/

namespace Library

variable {α : Type} {starts : α → Bool} {items : List α} {item : α}

/-- The groups of a sequence, in order. -/
def groups (starts : α → Bool) (items : List α) : List (List α) :=
  items.splitBy fun _ item => !starts item

theorem groups_singleton : groups starts [item] = [[item]] := rfl

theorem flatten_groups : (groups starts items).flatten = items := List.flatten_splitBy _ items

theorem nil_notMem_groups : [] ∉ groups starts items := List.nil_notMem_splitBy _ items

theorem groups_concat_start (items : List α) (h : starts item = true) :
    groups starts (items ++ [item]) = groups starts items ++ [[item]] :=
  List.splitBy_append_cons [] fun _ _ => by simp [h]

/-- An item that starts no group is behind the last one. -/
theorem groups_concat {closed : List (List α)} {group : List α} (h : starts item = false)
    (hgroups : groups starts items = closed ++ [group]) :
    groups starts (items ++ [item]) = closed ++ [group ++ [item]] := by
  obtain ⟨hitems, hne, hchains, hheads⟩ := List.splitBy_eq_iff.mp hgroups
  rw [List.mem_append, List.mem_singleton, not_or] at hne
  have hgroup : group ≠ [] := fun hnil => hne.2 hnil.symm
  refine List.splitBy_eq_iff.mpr ⟨by simp [hitems], by simpa using hne.1, ?_, ?_⟩
  · intro m hm
    rcases List.mem_append.mp hm with hm | hm
    · exact hchains m (List.mem_append_left _ hm)
    · obtain rfl := List.mem_singleton.mp hm
      have hchain := hchains group (by simp)
      rw [List.isChain_append]
      exact ⟨hchain, .singleton _, by simp [h]⟩
  · rw [List.isChain_append] at hheads ⊢
    refine ⟨hheads.1, .singleton _, ?_⟩
    intro a ha b hb
    obtain rfl : group ++ [item] = b := by simpa using hb
    obtain ⟨hlast, hhead, hfirst⟩ := hheads.2.2 a ha group (by simp)
    exact ⟨hlast, by simp, by rwa [List.head_append_of_ne_nil hhead]⟩

/-- More items go on with the last group, and start others behind it. -/
theorem groups_append {closed : List (List α)} {group : List α}
    (hgroups : groups starts items = closed ++ [group]) (more : List α) :
    ∃ front rest, groups starts (items ++ more) = closed ++ (group ++ front) :: rest := by
  induction more generalizing items closed group with
  | nil => exact ⟨[], [], by simpa using hgroups⟩
  | cons item more ih =>
    rw [List.append_cons]
    cases hstarts : starts item with
    | true =>
      have hnext := groups_concat_start items hstarts
      rw [hgroups] at hnext
      obtain ⟨front, rest, hall⟩ := ih hnext
      exact ⟨[], ([item] ++ front) :: rest, by rw [hall]; simp⟩
    | false =>
      obtain ⟨front, rest, hall⟩ := ih (groups_concat hstarts hgroups)
      exact ⟨item :: front, rest, by rw [hall, List.append_assoc, List.singleton_append]⟩

/-- A chain whose links ask something of their right ends asks it of all items but the first. -/
theorem forall_mem_tail_of_isChain {P : α → Prop} (h : items.IsChain fun _ item => P item) :
    ∀ item ∈ items.tail, P item := by
  cases items with
  | nil => simp
  | cons first items =>
    induction items generalizing first with
    | nil => simp
    | cons second items ih =>
      rw [List.isChain_cons_cons] at h
      rw [List.tail_cons, List.forall_mem_cons]
      exact ⟨h.1, ih second h.2⟩

/-- An item that starts a group is the first one of it. -/
theorem not_starts_of_mem_tail {group : List α} (h : group ∈ groups starts items)
    (hitem : item ∈ group.tail) : starts item = false := by
  have hchain := List.isChain_of_mem_splitBy h
  simpa using forall_mem_tail_of_isChain hchain item hitem

/-- Every group but the first one is started. -/
theorem starts_of_mem_tail_groups {group : List α} (h : group ∈ (groups starts items).tail) :
    ∃ first rest, group = first :: rest ∧ starts first = true := by
  have hchain := List.isChain_getLast_head_splitBy (fun _ item => !starts item) items
  obtain ⟨hne, hfirst⟩ := forall_mem_tail_of_isChain
    (P := fun group => ∃ hne : group ≠ [], starts (group.head hne) = true)
    (hchain.imp fun a b => by simp) group h
  exact ⟨group.head hne, group.tail, (List.cons_head_tail hne).symm, hfirst⟩

/-- Items in the order of their groups: those of the first group stand in front. -/
theorem filter_append_filter {items : List (Nat × α)} {k : Nat}
    (hsorted : (items.map Prod.fst).Pairwise (· ≤ ·)) (hle : ∀ item ∈ items, k ≤ item.1) :
    (items.filter fun item => item.1 = k) ++ (items.filter fun item => item.1 ≠ k) = items := by
  induction items with
  | nil => rfl
  | cons item items ih =>
    rw [List.map_cons, List.pairwise_cons] at hsorted
    rw [List.forall_mem_cons] at hle
    by_cases hk : item.1 = k
    · simpa [hk] using ih hsorted.2 hle.2
    · have hnone : ∀ other ∈ items, other.1 ≠ k := fun other hother => by
        have hitem := hsorted.1 other.1 (List.mem_map_of_mem hother)
        omega
      have hempty : (items.filter fun item => decide (item.1 = k)) = [] := by
        simpa [List.filter_eq_nil_iff] using hnone
      have hall : (items.filter fun item => decide (item.1 ≠ k)) = items := by
        simpa [List.filter_eq_self] using hnone
      simp only [List.filter_cons, decide_eq_true_eq, if_neg hk, hempty, hall]
      simp [hk]

/-- Where the items of each group are among those of the group, they are all together among those of
the groups. -/
theorem sublist_flatten {items : List (Nat × α)} {k : Nat} {groups : List (List α)}
    (hsorted : (items.map Prod.fst).Pairwise (· ≤ ·)) (hle : ∀ item ∈ items, k ≤ item.1)
    (hgroups : ∀ g, ((items.filter fun item => item.1 = k + g).map Prod.snd).Sublist
      (groups[g]?.getD [])) :
    (items.map Prod.snd).Sublist groups.flatten := by
  induction groups generalizing items k with
  | nil =>
    cases items with
    | nil => simp
    | cons item items =>
      have hitem := hle item List.mem_cons_self
      have hnil := hgroups (item.1 - k)
      rw [Nat.add_sub_cancel' hitem] at hnil
      simp at hnil
  | cons first groups ih =>
    rw [← filter_append_filter hsorted hle, List.map_append, List.flatten_cons]
    refine (hgroups 0).append (ih (k := k + 1) ?_ ?_ fun g => ?_)
    · exact hsorted.sublist (List.filter_sublist.map _)
    · intro item hitem
      obtain ⟨hmem, hne⟩ := List.mem_filter.mp hitem
      have hk := hle item hmem
      have hne : item.1 ≠ k := by simpa using hne
      omega
    · have hgroup := hgroups (g + 1)
      rw [List.filter_filter]
      have hsame : (fun item : Nat × α => decide (item.1 = k + 1 + g) && decide (item.1 ≠ k)) =
          fun item => decide (item.1 = k + (g + 1)) := by
        funext item
        rw [← Bool.decide_and, decide_eq_decide]
        omega
      rw [hsame]
      exact hgroup

end Library
