import Mathlib.Algebra.Order.Group.Nat
import Mathlib.Data.Finset.Card

/-!
# Intersection of quorums

Two quorums of `2f + 1` members have more than `f` members in common when there
are at most `3f + 1` members, so a correct one among them. With more members
there are two quorums that share only `f`.
-/

namespace LatticeTransfer.QuorumIntersection
open Finset

variable {α : Type*} [DecidableEq α] {f : ℕ} {ms p q faulty : Finset α}

theorem card_inter (hp : p ⊆ ms) (hq : q ⊆ ms) (hpc : 2*f+1≤p.card)
    (hqc : 2*f+1≤q.card) : 4*f+2≤(p ∩ q).card+ms.card := by
  have hu := card_le_card (union_subset hp hq)
  have hs := card_union_add_card_inter p q
  omega

theorem exists_correct (hm : ms.card≤3*f+1) (hf : faulty.card≤f)
    (hp : p ⊆ ms) (hq : q ⊆ ms) (hpc : 2*f+1≤p.card) (hqc : 2*f+1≤q.card) :
    ∃ v, v ∈ p ∧ v ∈ q ∧ v ∉ faulty := by
  have hi := card_inter hp hq hpc hqc
  by_contra hn
  have hs : p ∩ q ⊆ faulty := by
    intro v hv
    obtain ⟨hvp,hvq⟩ := mem_inter.mp hv
    by_contra hc
    exact hn ⟨v,hvp,hvq,hc⟩
  have hca := card_le_card hs
  omega

theorem exists_quorums (hm : 3*f+2 ≤ ms.card) :
    ∃ p q : Finset α, p ⊆ ms ∧ q ⊆ ms ∧ p.card=2*f+1 ∧ q.card=2*f+1 ∧
      (p ∩ q).card≤f ∧ (p \ q).Nonempty ∧ (q \ p).Nonempty := by
  obtain ⟨p,hp,hpc⟩ := exists_subset_card_eq (show 2*f+1 ≤ ms.card by omega)
  have hr : (ms \ p).card=ms.card-(2*f+1) := by rw [card_sdiff_of_subset hp,hpc]
  -- f ms of p together with f + 1 of the others
  obtain ⟨shared,hs,hsc⟩ := exists_subset_card_eq (show f≤p.card by omega)
  obtain ⟨others,ho,hoc⟩ :=
    exists_subset_card_eq (show f+1≤(ms \ p).card by omega)
  have hd : Disjoint p others :=
    disjoint_of_subset_right ho disjoint_sdiff
  have hi : p ∩ (shared ∪ others)=shared := by
    rw [inter_union_distrib_left,disjoint_iff_inter_eq_empty.mp hd,
      union_empty,inter_eq_right.mpr hs]
  have hqc : (shared ∪ others).card=2*f+1 := by
    rw [card_union_of_disjoint (disjoint_of_subset_left hs hd)]
    omega
  refine ⟨p,shared ∪ others,hp,?_,hpc,hqc,?_,?_,?_⟩
  · exact union_subset (hs.trans hp) (ho.trans sdiff_subset)
  · rw [hi,hsc]
  · rw [← card_pos,← sdiff_inter_self_left,hi,card_sdiff_of_subset hs]
    omega
  · have hne : others.Nonempty := card_pos.mp (by omega)
    obtain ⟨v,hv⟩ := hne
    exact ⟨v,mem_sdiff.mpr ⟨mem_union_right _ hv,(mem_sdiff.mp (ho hv)).2⟩⟩

end LatticeTransfer.QuorumIntersection
