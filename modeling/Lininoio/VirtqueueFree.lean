import Lininoio.VirtqueueRings

/-! The free descriptors, which are linked in a list of their own. -/

namespace Lininoio

open SharedMemory CircularBuffers FreeChains

variable {w n : Nat}

/-- The descriptors in `free` are linked in this order, and all others are in the chains of the
buffers under way. -/
structure FreeTable (n : Nat) (vq : Virtqueue w) (desc : UInt16 → VringDesc) (os : List (Offer w))
    (free : List UInt16) : Prop where
  chain : Chain (fun i => (desc i).next) vq.vqDescHeadIdx free vqRingDescChainEnd
  perm : (free ++ chains os).Perm ((List.range n).map UInt16.ofNat)
  freeCnt : vq.vqFreeCnt = UInt16.ofNat free.length
  used : ∀ o ∈ os, vq.vqDescx o.head = ⟨o.cookie, UInt16.ofNat o.chain.length⟩
  unused : ∀ i, i.toNat < n → (∀ o ∈ os, o.head ≠ i) → (vq.vqDescx i).cookie = 0

theorem mem_table (hn : IsRingSize n) {i : UInt16} :
    i ∈ (List.range n).map UInt16.ofNat ↔ i.toNat < n := by
  have hle := hn.le
  rw [List.mem_map]
  constructor
  · intro hi
    obtain ⟨j, hj, rfl⟩ := hi
    rw [List.mem_range] at hj
    rwa [UInt16.toNat_ofNat', Nat.mod_eq_of_lt (by omega)]
  · intro hi
    exact ⟨i.toNat, List.mem_range.mpr hi, UInt16.ofNat_toNat⟩

theorem nodup_table (hn : IsRingSize n) : ((List.range n).map UInt16.ofNat).Nodup := by
  refine List.Nodup.map_on (fun i hi j hj heq => ?_) List.nodup_range
  by_contra hne
  exact ofNat_ne hn.le (List.mem_range.mp hi) (List.mem_range.mp hj).le hne heq

namespace FreeTable

variable {vq vq' : Virtqueue w} {desc desc' : UInt16 → VringDesc} {os : List (Offer w)} {o : Offer w}
  {free rest : List UInt16} {i : UInt16}

theorem nodup (hn : IsRingSize n) (h : FreeTable n vq desc os free) : (free ++ chains os).Nodup :=
  h.perm.nodup_iff.mpr (nodup_table hn)

theorem bound (hn : IsRingSize n) (h : FreeTable n vq desc os free) (hi : i ∈ free) :
    i.toNat < n ∧ i ∉ chains os := by
  refine ⟨(mem_table hn).mp (h.perm.subset (List.mem_append_left _ hi)), fun hmem => ?_⟩
  exact (List.nodup_append.mp (h.nodup hn)).2.2 i hi i hmem rfl

theorem length (h : FreeTable n vq desc os free) : free.length + (chains os).length = n := by
  simpa using h.perm.length_eq

theorem toNat_freeCnt (hn : IsRingSize n) (h : FreeTable n vq desc os free) :
    vq.vqFreeCnt.toNat = free.length := by
  have hlength := h.length
  have hle := hn.le
  rw [h.freeCnt, UInt16.toNat_ofNat', Nat.mod_eq_of_lt (by omega)]

theorem freeCnt_eq_zero (hn : IsRingSize n) (h : FreeTable n vq desc os free) :
    vq.vqFreeCnt = 0 ↔ free = [] := by
  rw [← UInt16.toNat_inj, h.toNat_freeCnt hn]
  exact List.length_eq_zero_iff

theorem chainTerm (debug : Bool) (hn : IsRingSize n) (h : FreeTable n vq desc os free) :
    vqRingAssertIfFull debug vq = pure () := by
  rw [vqRingAssertIfFull]
  by_cases hzero : vq.vqFreeCnt = 0
  · have hchain := h.chain
    rw [(h.freeCnt_eq_zero hn).mp hzero] at hchain
    have hhead : vq.vqDescHeadIdx = vqRingDescChainEnd := hchain
    rw [if_pos hzero]
    exact vqassert_of (by simp [hhead])
  · rw [if_neg hzero]

theorem head_bound (hn : IsRingSize n) (h : FreeTable n vq desc os free) (hzero : vq.vqFreeCnt ≠ 0) :
    vq.vqDescHeadIdx ∈ free := by
  cases free with
  | nil => exact absurd ((h.freeCnt_eq_zero hn).mpr rfl) hzero
  | cons x free => exact h.chain.head ▸ List.mem_cons_self

theorem headAsserts (debug : Bool) (hn : IsRingSize n) (hvq : vq.vqNentries = UInt16.ofNat n)
    (h : FreeTable n vq desc os free) :
    vqRingAssertHead debug vq vq.vqDescHeadIdx = pure () := by
  rw [vqRingAssertHead]
  by_cases hzero : vq.vqFreeCnt = 0
  · have hterm := h.chainTerm debug hn
    rw [vqRingAssertIfFull, if_pos hzero] at hterm
    rw [if_pos hzero, hterm]
  · rw [if_neg hzero]
    exact validIdx_of hn hvq (h.bound hn (h.head_bound hn hzero)).1

theorem cookie_eq_zero (hn : IsRingSize n) (h : FreeTable n vq desc os free)
    (hheads : ∀ o ∈ os, o.chain.head? = some o.head) (hi : i ∈ free) :
    (vq.vqDescx i).cookie = 0 := by
  obtain ⟨hbound, hnot⟩ := h.bound hn hi
  refine h.unused i hbound fun o ho => ?_
  rintro rfl
  exact hnot (mem_chains ho (List.mem_of_mem_head? (hheads o ho)))

theorem take (hn : IsRingSize n) (h : FreeTable n vq desc os (o.chain ++ rest))
    (hhead : o.chain.head? = some o.head) (hheads : ∀ o ∈ os, o.chain.head? = some o.head)
    (hlinks : ∀ x ∈ rest, (desc' x).next = (desc x).next)
    (hidx : Chain (fun i => (desc i).next) vq.vqDescHeadIdx o.chain vq'.vqDescHeadIdx)
    (hcnt : vq'.vqFreeCnt = vq.vqFreeCnt - UInt16.ofNat o.chain.length)
    (hdescx : vq'.vqDescx =
      Function.update vq.vqDescx o.head ⟨o.cookie, UInt16.ofNat o.chain.length⟩) :
    FreeTable n vq' desc' (os ++ [o]) rest := by
  have hmem : o.head ∈ o.chain := List.mem_of_mem_head? hhead
  have hnot := (h.bound hn (List.mem_append_left rest hmem)).2
  obtain ⟨b, hfirst, hrest⟩ := chain_append.mp h.chain
  obtain rfl := hfirst.eq hidx
  refine ⟨hrest.congr hlinks, ?_, ?_, ?_, ?_⟩
  · refine List.Perm.trans ?_ h.perm
    rw [chains_append, chains_cons, chains_nil, List.append_nil, ← List.append_assoc,
      List.append_assoc o.chain]
    exact List.perm_append_comm
  · rw [hcnt, h.freeCnt, List.length_append, UInt16.ofNat_add, UInt16.add_comm]
    exact UInt16.add_sub_cancel _ _
  · intro o' ho'
    rw [hdescx]
    rcases List.mem_append.mp ho' with ho' | ho'
    · have hne : o'.head ≠ o.head := fun heq =>
        hnot (heq ▸ mem_chains ho' (List.mem_of_mem_head? (hheads o' ho')))
      rw [Function.update_of_ne hne, h.used o' ho']
    · rw [List.mem_singleton.mp ho', Function.update_self]
  · intro i hi hunused
    have hne : i ≠ o.head := fun heq => hunused o (by simp) heq.symm
    rw [hdescx, Function.update_of_ne hne]
    exact h.unused i hi fun o' ho' => hunused o' (List.mem_append_left _ ho')

theorem put {os' : List (Offer w)} {last c : UInt16} {d : VringDesc} (hn : IsRingSize n)
    (h : FreeTable n vq desc os free) (hperm : os.Perm (o :: os'))
    (hheads : ∀ o ∈ os, o.chain.head? = some o.head)
    (hlinks : Chain (fun i => (desc i).next) o.head o.chain c) (hlast : o.chain.getLast? = some last)
    (hd : d.next = vq.vqDescHeadIdx) (hidx : vq'.vqDescHeadIdx = o.head)
    (hcnt : vq'.vqFreeCnt = vq.vqFreeCnt + UInt16.ofNat o.chain.length)
    (hdescx : ∀ i, i ≠ o.head → vq'.vqDescx i = vq.vqDescx i)
    (hcookie : (vq'.vqDescx o.head).cookie = 0) :
    FreeTable n vq' (Function.update desc last d) os' (o.chain ++ free) := by
  have hnodup := h.nodup hn
  have hmem : last ∈ o.chain := List.mem_of_getLast? hlast
  have hchains : (chains os).Perm (o.chain ++ chains os') := chains_perm hperm
  have hall : (o.chain ++ free ++ chains os').Perm (free ++ chains os) := by
    rw [List.append_assoc]
    exact (List.perm_append_comm_assoc ..).trans (hchains.symm.append_left _)
  have hdisjoint : (o.chain ++ free ++ chains os').Nodup := hall.nodup_iff.mpr hnodup
  have hfree : ∀ i ∈ o.chain, i ∉ free := fun i hi hi' =>
    (List.nodup_append.mp (List.nodup_append.mp hdisjoint).1).2.2 i hi i hi' rfl
  have hnext : (fun i => (Function.update desc last d i).next) =
      Function.update (fun i => (desc i).next) last vq.vqDescHeadIdx := by
    rw [← hd]
    exact Function.comp_update VringDesc.next desc last d
  refine ⟨?_, hall.trans h.perm, ?_, ?_, ?_⟩
  · rw [hidx, hnext]
    refine chain_append.mpr ⟨vq.vqDescHeadIdx, ?_, h.chain.congr fun x hx => ?_⟩
    · obtain ⟨xs, hxs⟩ := List.getLast?_eq_some_iff.mp hlast
      rw [hxs] at hlinks ⊢
      refine hlinks.relink (fun hx => ?_) _
      have hself := (List.nodup_append.mp (List.nodup_append.mp hdisjoint).1).1
      rw [hxs] at hself
      exact (List.nodup_append.mp hself).2.2 last hx last List.mem_cons_self rfl
    · exact Function.update_of_ne (ne_of_mem_of_not_mem hx (hfree last hmem)) _ _
  · rw [hcnt, h.freeCnt, List.length_append, UInt16.ofNat_add, UInt16.add_comm]
  · intro o' ho'
    have ho := hperm.symm.subset (List.mem_cons_of_mem _ ho')
    rw [hdescx _ fun heq => ?_, h.used o' ho]
    have hhead := List.mem_of_mem_head? (hheads o (hperm.symm.subset List.mem_cons_self))
    have hhead' := List.mem_of_mem_head? (hheads o' ho)
    exact (List.nodup_append.mp hdisjoint).2.2 _ (List.mem_append_left _ hhead) _
      (mem_chains ho' hhead') heq.symm
  · intro i hi hunused
    by_cases heq : i = o.head
    · rw [heq, hcookie]
    · rw [hdescx i heq]
      refine h.unused i hi fun o' ho' => ?_
      rcases List.mem_cons.mp (hperm.subset ho') with rfl | ho'
      · exact fun hh => heq hh.symm
      · exact hunused o' ho'

theorem front {m : Nat} (hn : IsRingSize n) (h : FreeTable n vq desc os free) (hm : 1 ≤ m)
    (hroom : m ≤ vq.vqFreeCnt.toNat) : ∃ chain rest b, free = chain ++ rest ∧ chain.length = m ∧
      Chain (fun i => (desc i).next) vq.vqDescHeadIdx chain b ∧
      chain.head? = some vq.vqDescHeadIdx := by
  have hfree := h.toNat_freeCnt hn
  have hlength : (free.take m).length = m := by
    rw [List.length_take]
    omega
  have hchain := h.chain
  rw [← List.take_append_drop m free] at hchain
  obtain ⟨b, hfirst, -⟩ := chain_append.mp hchain
  refine ⟨free.take m, free.drop m, b, (List.take_append_drop ..).symm, hlength, hfirst, ?_⟩
  cases hcases : free.take m with
  | nil => simp only [hcases, List.length_nil] at hlength; omega
  | cons x chain =>
    rw [hcases] at hfirst
    rw [hfirst.head, List.head?_cons]

end FreeTable

end Lininoio
