import TermChat.Service.DedupCache

/-! What `EvictExpiredLocked` removes from a shard: the entries that have expired and, when there
are still too many, those of the others that expire first. -/
namespace TermChat
namespace ClientDedupCache
namespace Shard

def unexpired (sh : Shard) (now : ℕ) : List (DedupKey × CacheValue) :=
  sh.entries.filter fun kv => (now : ℤ) < kv.2.expiresAt

/-- Too many entries are unexpired, so that some of them have to go. -/
def Overflows (sh : Shard) (maxEntries now : ℕ) : Prop := maxEntries < (sh.unexpired now).length

/-- The order in which the loop of an overflow goes through the entries. -/
def byExpiry (entries : List (DedupKey × CacheValue)) : List (DedupKey × CacheValue) :=
  entries.mergeSort fun a b => a.2.expiresAt ≤ b.2.expiresAt

private theorem pairwise_byExpiry (entries : List (DedupKey × CacheValue)) :
    (byExpiry entries).Pairwise fun a b => a.2.expiresAt ≤ b.2.expiresAt := by
  unfold byExpiry
  refine (List.pairwise_mergeSort ?_ ?_ entries).imp fun hle => of_decide_eq_true hle
  · intro a b c hab hbc
    have hab := of_decide_eq_true hab
    have hbc := of_decide_eq_true hbc
    exact decide_eq_true (hab.trans hbc)
  · intro a b
    rw [Bool.or_eq_true, decide_eq_true_iff, decide_eq_true_iff]
    exact le_total _ _

/-- The loop erases from the front of its order until the size is reached. -/
theorem eraseOldest_perm {targetSize : ℕ} {order entries : List (DedupKey × CacheValue)}
    (hperm : order.Perm entries) (hnodup : (order.map Prod.fst).Nodup) :
    (eraseOldest targetSize (order.map Prod.fst) entries).Perm
      (order.drop (order.length - targetSize)) := by
  induction order generalizing entries with
  | nil =>
    rw [List.nil_perm.mp hperm, List.drop_nil]
    exact List.Perm.refl []
  | cons kv order ih =>
    obtain ⟨hnew, hrest⟩ := List.nodup_cons.mp hnodup
    rw [List.map_cons, eraseOldest, ← hperm.length_eq]
    split_ifs with hlong
    · have herase : (entries.filter fun e => e.1 ≠ kv.1).Perm order := by
        have hfilter := (hperm.filter fun e => e.1 ≠ kv.1).symm
        have hkeep : (kv :: order).filter (fun e => e.1 ≠ kv.1) = order := by
          rw [List.filter_cons_of_neg (by simp)]
          apply List.filter_eq_self.mpr
          intro e he
          have hne : e.1 ≠ kv.1 := fun heq => hnew (heq ▸ List.mem_map_of_mem he)
          simpa using hne
        rwa [hkeep] at hfilter
      have hlen : (kv :: order).length - targetSize = (order.length - targetSize) + 1 := by
        simp only [List.length_cons] at hlong ⊢
        omega
      rw [hlen, List.drop_succ_cons]
      exact ih herase.symm hrest
    · have hlen : (kv :: order).length - targetSize = 0 := by omega
      rw [hlen, List.drop_zero]
      exact hperm.symm

variable {sh : Shard} {maxEntries now : ℕ}

theorem unexpired_sublist (sh : Shard) (now : ℕ) : (sh.unexpired now).Sublist sh.entries :=
  List.filter_sublist

theorem mem_unexpired {kv : DedupKey × CacheValue} :
    kv ∈ sh.unexpired now ↔ kv ∈ sh.entries ∧ (now : ℤ) < kv.2.expiresAt := by
  simp [unexpired]

theorem length_byExpiry (entries : List (DedupKey × CacheValue)) :
    (byExpiry entries).length = entries.length := (List.mergeSort_perm entries _).length_eq

theorem survivors_of_overflows (h : sh.Overflows maxEntries now) :
    survivors maxEntries now sh.entries = eraseOldest (maxEntries * 9 / 10)
      ((byExpiry (sh.unexpired now)).map Prod.fst) (sh.unexpired now) := if_pos h

theorem survivors_of_not_overflows (h : ¬ sh.Overflows maxEntries now) :
    survivors maxEntries now sh.entries = sh.unexpired now := if_neg h

/-- An overflow keeps the end of the order. -/
theorem evict_of_overflows (h : sh.Overflows maxEntries now) :
    (sh.evictExpiredLocked maxEntries now).entries.Perm
      ((byExpiry (sh.unexpired now)).drop ((sh.unexpired now).length - maxEntries * 9 / 10)) := by
  have hle := (sh.unexpired_sublist now).length_le
  have hscan : ¬ (now < sh.nextEvictAt ∧ sh.entries.length ≤ maxEntries) := by
    unfold Overflows at h
    omega
  have hkeys : ((byExpiry (sh.unexpired now)).map Prod.fst).Nodup := by
    have hperm := (List.mergeSort_perm (sh.unexpired now)
      fun a b => a.2.expiresAt ≤ b.2.expiresAt).map Prod.fst
    exact hperm.nodup_iff.mpr (((sh.unexpired_sublist now).map Prod.fst).nodup sh.nodup)
  unfold evictExpiredLocked
  rw [if_neg hscan]
  change (survivors maxEntries now sh.entries).Perm _
  rw [survivors_of_overflows h, ← length_byExpiry]
  exact eraseOldest_perm (List.mergeSort_perm _ _) hkeys

theorem mem_evict_of_not_overflows (h : ¬ sh.Overflows maxEntries now) {kv : DedupKey × CacheValue}
    (hkv : kv ∈ sh.unexpired now) : kv ∈ (sh.evictExpiredLocked maxEntries now).entries := by
  unfold evictExpiredLocked
  split_ifs with hscan
  · exact (mem_unexpired.mp hkv).1
  · change kv ∈ survivors maxEntries now sh.entries
    rwa [survivors_of_not_overflows h]

/-- What a scan leaves of too many unexpired entries: nine tenths of the maximum. -/
theorem length_evict_of_overflows (h : sh.Overflows maxEntries now) :
    (sh.evictExpiredLocked maxEntries now).entries.length = maxEntries * 9 / 10 := by
  unfold Overflows at h
  rw [(evict_of_overflows h).length_eq, List.length_drop, length_byExpiry]
  omega

theorem mem_unexpired_of_mem_evict (h : sh.Overflows maxEntries now) {kv : DedupKey × CacheValue}
    (hkv : kv ∈ (sh.evictExpiredLocked maxEntries now).entries) : kv ∈ sh.unexpired now := by
  have hdrop := List.mem_of_mem_drop ((evict_of_overflows h).mem_iff.mp hkv)
  exact (List.mergeSort_perm _ _).mem_iff.mp hdrop

/-- An overflow removes only entries that expire no later than every entry it keeps. -/
theorem expiresAt_le_of_evicted (h : sh.Overflows maxEntries now) {gone kept : DedupKey × CacheValue}
    (hin : gone ∈ sh.entries) (hgone : gone ∉ (sh.evictExpiredLocked maxEntries now).entries)
    (hkept : kept ∈ (sh.evictExpiredLocked maxEntries now).entries) :
    gone.2.expiresAt ≤ kept.2.expiresAt := by
  by_cases hlive : (now : ℤ) < gone.2.expiresAt
  · set order := byExpiry (sh.unexpired now)
    set n := (sh.unexpired now).length - maxEntries * 9 / 10
    have hmem : gone ∈ order := (List.mergeSort_perm _ _).mem_iff.mpr (mem_unexpired.mpr ⟨hin, hlive⟩)
    have hsplit : order.take n ++ order.drop n = order := List.take_append_drop n order
    have hfront : gone ∈ order.take n := by
      rw [← hsplit, List.mem_append] at hmem
      refine hmem.resolve_right fun hback => hgone ?_
      exact (evict_of_overflows h).mem_iff.mpr hback
    have hsorted := pairwise_byExpiry (sh.unexpired now)
    change order.Pairwise _ at hsorted
    rw [← hsplit, List.pairwise_append] at hsorted
    exact hsorted.2.2 gone hfront kept ((evict_of_overflows h).mem_iff.mp hkept)
  · have hkeep := (mem_unexpired.mp (mem_unexpired_of_mem_evict h hkept)).2
    omega

/-- The unexpired entries that an overflow removes are as many as the size requires. -/
theorem length_unexpired_evicted (h : sh.Overflows maxEntries now) :
    ((sh.unexpired now).filter fun kv =>
      kv ∉ (sh.evictExpiredLocked maxEntries now).entries).length + maxEntries * 9 / 10 =
      (sh.unexpired now).length := by
  set kept := (sh.evictExpiredLocked maxEntries now).entries with hdef
  have hnodup : (sh.unexpired now).Nodup :=
    (((sh.unexpired_sublist now).map Prod.fst).nodup sh.nodup).of_map
  have hkeptNodup : kept.Nodup := (sh.evictExpiredLocked maxEntries now).nodup.of_map
  have hperm : ((sh.unexpired now).filter fun kv => kv ∈ kept).Perm kept := by
    apply (List.perm_ext_iff_of_nodup (hnodup.filter _) hkeptNodup).mpr
    intro kv
    rw [List.mem_filter, decide_eq_true_iff]
    exact ⟨fun hkv => hkv.2, fun hkv => ⟨mem_unexpired_of_mem_evict h hkv, hkv⟩⟩
  have hcount := List.length_eq_length_filter_add (l := sh.unexpired now) fun kv => kv ∈ kept
  have hlen := length_evict_of_overflows h
  have hnot : (sh.unexpired now).filter (fun kv => !decide (kv ∈ kept)) =
      (sh.unexpired now).filter fun kv => kv ∉ kept := by
    apply List.filter_congr
    intro kv _
    rw [decide_not]
  rw [hperm.length_eq, hdef, hlen, hnot] at hcount
  omega

theorem length_evict_le (sh : Shard) (maxEntries now : ℕ) :
    (sh.evictExpiredLocked maxEntries now).entries.length ≤ maxEntries := by
  by_cases h : sh.Overflows maxEntries now
  · rw [length_evict_of_overflows h]
    omega
  · unfold evictExpiredLocked
    split_ifs with hscan
    · exact hscan.2
    · change (survivors maxEntries now sh.entries).length ≤ _
      rw [survivors_of_not_overflows h]
      exact not_lt.mp h

end Shard
end ClientDedupCache
end TermChat
