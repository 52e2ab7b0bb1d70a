import Moqt.Relay.Delivery
import Moqt.Relay.History

/-! What the lookup of a data stream finds, and what becomes of it.  Nobody is found twice, and each
one who is found has then a stream opened to it, in turn. -/

namespace Moqt.Relay

open Library Wire

namespace Network

variable (n : Network)

/-- The task of the data stream has looked its subscribers up. -/
def HasLookedUp (i : Nat) : Prop := ∃ t ∈ n.world.dataStreams[i]?, t.pc ≠ .lookup

instance (i : Nat) : Decidable (n.HasLookedUp i) :=
  inferInstanceAs (Decidable (∃ t ∈ n.world.dataStreams[i]?, _))

/-- How many streams to the subscriber `r` the task of the data stream `i` has opened. -/
def openedFrom (h : History) (i : Nat) (r : RequestId) : Nat :=
  (n.world.openedBy i).countP fun s => h.served[s]? = some (i, r) ∧
    ∃ d ∈ n.world.streams[s]?, n.world.SessionOf r d.session

/-- How many streams to the subscriber `r` the task of the data stream `i` has still to open. -/
def leftFrom (h : History) (i : Nat) (r : RequestId) : Nat :=
  ((h.pending i).zip (n.world.toOpen i)).countP fun (k, session) =>
    k = r ∧ n.world.SessionOf r session

end Network

/-- A stream to a subscriber can be opened. -/
def Opens (_ : Network × History) : NetworkLabel → Prop
  | .relay (.dataStream _ (.opened ok)) => ok = true
  | _ => True

instance (x : Network × History) : (l : NetworkLabel) → Decidable (Opens x l)
  | .relay (.dataStream _ (.opened ok)) => inferInstanceAs (Decidable (ok = true))
  | .relay (.dataStream _ .proceed) | .relay (.dataStream _ (.wrote _))
  | .relay (.dataStream _ (.responded _ _)) | .relay (.dataStream _ (.response _))
  | .relay (.dataStream _ (.object _)) | .relay .connect | .relay (.event _ _)
  | .relay (.eventError _) | .relay (.removeSession _) | .relay (.publishNamespace _ _)
  | .relay (.subscribe _ _) | .openBi _ _ | .openUni _ _ | .close _ | .answer _ _ => isTrue trivial

/-! ### What becomes of what is found -/

/-- A lookup finds no subscriber twice. -/
theorem Lifecycle.nodup_found {w : World} (h : Lifecycle w) (publisher : SessionId)
    (trackAlias : UInt64) :
    ((w.state.findSubscriberEntries publisher trackAlias).map (·.request)).Nodup := by
  refine RelayState.nodup_findSubscriberEntries h.upstreams.nodup ?_
  intro track sub track' sub' hsub hsub' e he e' he' hsame
  obtain ⟨u, hu, -, htrack, -⟩ := h.upstreams.listed track sub hsub e he
  obtain ⟨u', hu', -, htrack', -⟩ := h.upstreams.listed track' sub' hsub' e' he'
  rw [← hsame, hu] at hu'
  obtain rfl := Option.some.inj hu'
  exact Option.mem_unique htrack htrack'

/-- Who has been found for a data stream has a stream of it, or will have. -/
structure Apportioned (n : Network) (h : History) : Prop where
  count : ∀ (i : Nat) (r : RequestId),
    (h.found i).count r = h.served.count (i, r) + (h.pending i).count r
  fresh : ∀ i, ¬n.HasLookedUp i → h.found i = []
  nodup : ∀ i, (h.found i).Nodup

theorem Apportioned.new : Apportioned .new .new where
  count _ _ := rfl
  fresh _ _ := rfl
  nodup _ := List.nodup_nil

section Apportioned

variable {n n' : Network} {h : History} {l : NetworkLabel}

/-- A task does not come back to its lookup. -/
theorem Network.HasLookedUp.step {i : Nat} (hlooked : n.HasLookedUp i)
    (hstep : NetworkStep n l n') : n'.HasLookedUp i := by
  obtain ⟨t, ht, hpc⟩ := hlooked
  cases hstep.dataChange with
  | same hstreams hdata hreaders => exact ⟨t, by rw [hdata]; exact ht, hpc⟩
  | accepted hl hlink hstream hconn hread hstreams hdata hreaders =>
    exact ⟨t, by rw [hdata]; exact Table.getElem?_concat.mpr (.inl ht), hpc⟩
  | @moved j u reader reader' input hl hu hreader hdata hmoves hreaders =>
    by_cases hj : i = j
    · subst hj
      obtain ⟨t', ht', -⟩ := hdata.move hu
      exact ⟨t', ht', (hdata.advance hu ht' hmoves).pc_ne_lookup⟩
    · exact ⟨t, hdata.other hj ht, hpc⟩

/-- A task looks its subscribers up from where no one has been. -/
theorem Network.not_hasLookedUp {i : Nat} {t : DataStreamTask}
    (ht : n.world.dataStreams[i]? = some t) (hpc : t.pc = .lookup) : ¬n.HasLookedUp i := by
  rintro ⟨t₀, ht₀, hpc₀⟩
  obtain rfl := Option.mem_unique ht ht₀
  exact hpc₀ hpc

theorem Apportioned.step (happortioned : Apportioned n h) (hattributed : Attributed n h)
    (hlife : Lifecycle n.world) (hl : Opens (n, h) l) (hstep : NetworkStep n l n') :
    Apportioned n' (History.note n h l) := by
  obtain ⟨hcount, hfresh, hnodup⟩ := happortioned
  have hstill (i : Nat) (hnot : ¬n'.HasLookedUp i) : ¬n.HasLookedUp i :=
    fun hlooked => hnot (hlooked.step hstep)
  cases hattributed.foundMove hstep with
  | same hfound hpending _ hserved =>
    constructor
    · rw [hfound, hpending, hserved]
      exact hcount
    · rw [hfound]
      exact fun i hnot => hfresh i (hstill i hnot)
    · rw [hfound]
      exact hnodup
  | @found i t t' found ht hpc ht' hpc' hentries hfound hpending _ hserved =>
    have hnew := Network.not_hasLookedUp ht hpc
    constructor
    · intro j r
      rw [hfound, hpending, hserved]
      by_cases hj : j = i
      · subst hj
        have hzero := hcount j r
        rw [hfresh j hnew, List.count_nil] at hzero
        rw [Function.update_self, Function.update_self]
        omega
      · rw [Function.update_of_ne hj, Function.update_of_ne hj]
        exact hcount j r
    · intro j hnot
      have hj : j ≠ i := by
        rintro rfl
        exact hnot ⟨t', ht', hpc'⟩
      rw [hfound, Function.update_of_ne hj]
      exact hfresh j (hstill j hnot)
    · intro j
      rw [hfound]
      by_cases hj : j = i
      · subst hj
        rw [Function.update_self, hentries]
        exact hlife.nodup_found t.senderSession t.header.trackAlias
      · rw [Function.update_of_ne hj]
        exact hnodup j
  | skipped heq =>
    subst heq
    cases hl
  | @opened i k rest _ _ hold hfound hpending _ hserved =>
    constructor
    · intro j r
      rw [hfound, hpending, hserved, List.count_append, List.count_singleton]
      have hbefore := hcount j r
      by_cases hj : j = i
      · subst hj
        rw [hold, List.count_cons] at hbefore
        rw [Function.update_self]
        simp only [Prod.mk.injEq, beq_iff_eq, true_and] at hbefore ⊢
        omega
      · rw [Function.update_of_ne hj]
        have hne : ((i, k) == (j, r)) = false := by simp [Ne.symm hj]
        rw [hne]
        exact hbefore
    · rw [hfound]
      exact fun j hnot => hfresh j (hstill j hnot)
    · rw [hfound]
      exact hnodup

end Apportioned

/-! ### The states of the lookups -/

/-- A task that has looked its subscribers up had done so, or has done so in this step. -/
theorem Network.HasLookedUp.before {n n' : Network} {l : NetworkLabel} {i : Nat}
    (hlooked : n'.HasLookedUp i) (hstep : NetworkStep n l n') :
    n.HasLookedUp i ∨ l = .relay (.dataStream i .proceed) ∧
      ∃ t, n.world.dataStreams[i]? = some t ∧ t.pc = .lookup := by
  obtain ⟨t', ht', hpc'⟩ := hlooked
  cases hstep.dataChange with
  | same hstreams hdata hreaders => exact .inl ⟨t', hdata ▸ ht', hpc'⟩
  | accepted hl hlink hstream hconn hread hstreams hdata hreaders =>
    rw [hdata] at ht'
    rcases Table.getElem?_concat.mp ht' with ht | ⟨-, rfl⟩
    · exact .inl ⟨t', ht, hpc'⟩
    · exact absurd rfl hpc'
  | @moved j t reader reader' input hl ht hreader hdata hmoves hreaders =>
    by_cases hj : i = j
    · subst hj
      by_cases hpc : t.pc = .lookup
      · obtain ⟨rfl, -⟩ := (hdata.advance ht ht' hmoves).looksUp hpc
        exact .inr ⟨hl, t, ht, hpc⟩
      · exact .inl ⟨t, ht, hpc⟩
    · exact .inl ⟨t', hdata.getElem?_other hj ▸ ht', hpc'⟩

/-- The state of each lookup is noted. -/
def Noted (n : Network) (h : History) : Prop :=
  ∀ i, n.HasLookedUp i ↔ ∃ w, h.lookups i = some w

theorem Noted.new : Noted .new .new := by
  refine fun i => ⟨?_, nofun⟩
  rintro ⟨t, ht, -⟩
  cases ht

theorem Noted.step {n n' : Network} {h : History} {l : NetworkLabel} (hnoted : Noted n h)
    (hattributed : Attributed n h) (hstep : NetworkStep n l n') :
    Noted n' (History.note n h l) := by
  intro i
  constructor
  · intro hlooked
    rcases hlooked.before hstep with hold | ⟨rfl, t, ht, hpc⟩
    · obtain ⟨w, hw⟩ := (hnoted i).mp hold
      cases hattributed.foundMove hstep with
      | same _ _ hlookups | opened _ _ _ hlookups | skipped _ _ _ hlookups =>
        exact ⟨w, hlookups ▸ hw⟩
      | @found j t t' found ht hpc _ _ _ _ _ hlookups =>
        rw [hlookups]
        have hj : i ≠ j := by
          rintro rfl
          exact Network.not_hasLookedUp ht hpc hold
        exact ⟨w, by rw [Function.update_of_ne hj, hw]⟩
    · rw [History.note_dataStream ht]
      exact ⟨n.world, by simp [History.dataStream, hpc]⟩
  · rintro ⟨w, hw⟩
    have old (hw : h.lookups i = some w) : n'.HasLookedUp i := ((hnoted i).mpr ⟨w, hw⟩).step hstep
    cases hattributed.foundMove hstep with
    | same _ _ hlookups | opened _ _ _ hlookups | skipped _ _ _ hlookups =>
      exact old (hlookups ▸ hw)
    | @found j t t' found _ _ ht' hpc' _ _ _ hlookups =>
      rw [hlookups] at hw
      by_cases hj : i = j
      · subst hj
        exact ⟨t', ht', hpc'⟩
      · rw [Function.update_of_ne hj] at hw
        exact old hw

/-! ### The streams of a task -/

theorem countP_zip_of_forall₂ {α β : Type} [DecidableEq α] {R : α → β → Prop}
    [∀ a b, Decidable (R a b)] {as : List α} {bs : List β} (h : List.Forall₂ R as bs) (a : α) :
    ((as.zip bs).countP fun (a', b) => a' = a ∧ R a b) = as.count a := by
  induction h with
  | nil => rfl
  | @cons a' b as bs hab _ ih =>
    rw [List.zip_cons_cons, List.countP_cons, List.count_cons, ih]
    by_cases heq : a' = a
    · subst heq
      simp [hab]
    · simp [heq]

theorem Attributed.leftFrom {n : Network} {h : History} (hattributed : Attributed n h) (i : Nat)
    (r : RequestId) : n.leftFrom h i r = (h.pending i).count r :=
  countP_zip_of_forall₂ (hattributed.pending i) r

theorem Attributed.openedFrom {n : Network} {h : History} (hattributed : Attributed n h) (i : Nat)
    (r : RequestId) : n.openedFrom h i r = h.served.count (i, r) := by
  have hnoted : h.served.count (i, r) = h.served.zipIdx.countP fun served => served.1 = (i, r) := by
    conv_lhs => rw [← List.zipIdx_map_fst 0 h.served, List.count, List.countP_map]
    exact List.countP_congr fun e _ => by simp
  rw [Network.openedFrom, hattributed.opened, List.countP_map, List.countP_filter, hnoted]
  refine List.countP_congr ?_
  rintro ⟨e, s⟩ he
  have hs : h.served[s]? = some e := List.mem_zipIdx_iff_getElem?.mp he
  obtain ⟨hlt, -⟩ := List.getElem?_eq_some_iff.mp hs
  obtain ⟨d, hd⟩ : ∃ d, n.world.streams[s]? = some d :=
    ⟨_, List.getElem?_eq_getElem (hattributed.length ▸ hlt)⟩
  simp only [Function.comp_apply, hs, Option.some.injEq, Bool.decide_and, Bool.and_eq_true,
    decide_eq_true_eq]
  constructor
  · exact fun hboth => hboth.1.1
  · rintro rfl
    exact ⟨⟨rfl, d, hd, hattributed.served s i r d hs hd⟩, rfl⟩

end Moqt.Relay
