import TermChat.Base.Steps
import TermChat.Service.Eviction

/-! Runs of `Reserve` and `UpdateStatus` on a `ClientDedupCache`, what a call does to the shards,
and how many entries a shard has. -/
namespace TermChat
open Proto

/-- A call, with the clock reading it takes. `reorder` is not a call: the order in which an
`unordered_map` lists its entries is not specified, nor is the order in which `std::sort` leaves
those that expire together, so that the list of a shard may be in another order at any time. -/
inductive CacheCall where
  | reserve (senderId clientMsgId serverMsgId receiverId : UInt64) (status : MessageAckStatus)
      (now : ℕ)
  | updateStatus (senderId clientMsgId serverMsgId : UInt64) (status : MessageAckStatus) (now : ℕ)
  | reorder (i : ℕ) (entries : List (DedupKey × ClientDedupCache.CacheValue))

/-- The key that a call looks up, and its clock reading. A zero id is refused before both. -/
def CacheCall.lookup : CacheCall → Option (DedupKey × ℕ)
  | .reserve senderId clientMsgId serverMsgId receiverId _ now =>
    if senderId = 0 ∨ clientMsgId = 0 ∨ serverMsgId = 0 ∨ receiverId = 0 then none
    else some ((senderId, clientMsgId), now)
  | .updateStatus senderId clientMsgId serverMsgId _ now =>
    if senderId = 0 ∨ clientMsgId = 0 ∨ serverMsgId = 0 then none
    else some ((senderId, clientMsgId), now)
  | .reorder _ _ => none

namespace ClientDedupCache

def Shard.reorder (sh : Shard) (entries : List (DedupKey × CacheValue))
    (h : entries.Perm sh.entries) : Shard :=
  ⟨entries, sh.nextEvictAt, (h.map Prod.fst).nodup_iff.mpr sh.nodup⟩

/-- With its entries in a suitable order, a shard keeps what any sort of the unexpired ones by
expiry makes it keep. -/
theorem Shard.exists_reorder_evict {sh : Shard} {maxEntries now : ℕ}
    (h : sh.Overflows maxEntries now) {order : List (DedupKey × CacheValue)}
    (hperm : order.Perm (sh.unexpired now))
    (hsorted : order.Pairwise fun a b => a.2.expiresAt ≤ b.2.expiresAt) :
    ∃ entries, ∃ hentries : entries.Perm sh.entries,
      ((sh.reorder entries hentries).evictExpiredLocked maxEntries now).entries.Perm
        (order.drop (order.length - maxEntries * 9 / 10)) := by
  set expired := sh.entries.filter fun kv => !decide ((now : ℤ) < kv.2.expiresAt) with hexpired
  have hentries : (order ++ expired).Perm sh.entries :=
    (hperm.append_right expired).trans (List.filter_append_perm _ _)
  have hlive : (sh.reorder (order ++ expired) hentries).unexpired now = order := by
    have hall : ∀ kv ∈ order, (now : ℤ) < kv.2.expiresAt := fun kv hkv =>
      (Shard.mem_unexpired.mp (hperm.mem_iff.mp hkv)).2
    have hnone : ∀ kv ∈ expired, ¬ (now : ℤ) < kv.2.expiresAt := fun kv hkv => by
      simpa [hexpired] using (List.mem_filter.mp hkv).2
    rw [Shard.unexpired, Shard.reorder, List.filter_append, List.filter_eq_self.mpr (by simpa using hall),
      List.filter_eq_nil_iff.mpr (by simpa using hnone), List.append_nil]
  have hover : (sh.reorder (order ++ expired) hentries).Overflows maxEntries now := by
    rw [Shard.Overflows, hlive, hperm.length_eq]
    exact h
  refine ⟨order ++ expired, hentries, ?_⟩
  have hkept := Shard.evict_of_overflows hover
  rwa [hlive, Shard.byExpiry, List.mergeSort_of_pairwise (hsorted.imp fun hle => decide_eq_true hle)]
    at hkept

def step (c : ClientDedupCache) : CacheCall → Option ClientDedupCache
  | .reserve senderId clientMsgId serverMsgId receiverId status now =>
    some (c.reserve senderId clientMsgId serverMsgId receiverId status now).2
  | .updateStatus senderId clientMsgId serverMsgId status now =>
    some (c.updateStatus senderId clientMsgId serverMsgId status now)
  | .reorder i entries =>
    if hi : i < c.shardCount then
      if h : entries.Perm (c.shards ⟨i, hi⟩).entries then
        some (c.setShard ⟨i, hi⟩ ((c.shards ⟨i, hi⟩).reorder entries h))
      else none
    else none

def evicted (c : ClientDedupCache) (key : DedupKey) (now : ℕ) : Shard :=
  (c.shards (c.shardFor key)).evictExpiredLocked c.maxEntriesPerShard now

inductive Touches (c : ClientDedupCache) (call : CacheCall) : ClientDedupCache → Prop where
  | refused (h : call.lookup = none) : Touches c call c
  | found (key : DedupKey) (now : ℕ) (h : call.lookup = some (key, now)) :
      Touches c call (c.setShard (c.shardFor key) (c.evicted key now))
  | reserved (key : DedupKey) (now : ℕ) (h : call.lookup = some (key, now)) (entry : Entry)
      (hnone : (c.evicted key now).find key = none) :
      Touches c call (c.setShard (c.shardFor key)
        ((c.evicted key now).emplace key ⟨entry, now + c.ttl⟩ hnone))
  | updated (key : DedupKey) (now : ℕ) (h : call.lookup = some (key, now)) (serverMsgId : UInt64)
      (status : MessageAckStatus) (hcall : call = .updateStatus key.1 key.2 serverMsgId status now) :
      Touches c call (c.setShard (c.shardFor key) ((c.evicted key now).modify key fun v =>
        if v.entry.serverMsgId ≠ serverMsgId then v
        else ⟨{ v.entry with status := status }, now + c.ttl⟩))
  | reordered (h : call.lookup = none) (i : Fin c.shardCount)
      (entries : List (DedupKey × CacheValue)) (hperm : entries.Perm (c.shards i).entries) :
      Touches c call (c.setShard i ((c.shards i).reorder entries hperm))

variable {c c' : ClientDedupCache} {call : CacheCall}

theorem touches_reserve (c : ClientDedupCache)
    (senderId clientMsgId serverMsgId receiverId : UInt64) (status : MessageAckStatus) (now : ℕ) :
    c.Touches (.reserve senderId clientMsgId serverMsgId receiverId status now)
      (c.reserve senderId clientMsgId serverMsgId receiverId status now).2 := by
  unfold ClientDedupCache.reserve
  split_ifs with hzero
  · exact .refused (if_pos hzero)
  · have hlookup : CacheCall.lookup
        (.reserve senderId clientMsgId serverMsgId receiverId status now) =
        some ((senderId, clientMsgId), now) := if_neg hzero
    dsimp only
    split
    · exact .found _ now hlookup
    · rename_i hnone
      exact .reserved _ now hlookup _ hnone

theorem touches_updateStatus (c : ClientDedupCache) (senderId clientMsgId serverMsgId : UInt64)
    (status : MessageAckStatus) (now : ℕ) :
    c.Touches (.updateStatus senderId clientMsgId serverMsgId status now)
      (c.updateStatus senderId clientMsgId serverMsgId status now) := by
  unfold ClientDedupCache.updateStatus
  split_ifs with hzero
  · exact .refused (if_pos hzero)
  · have hlookup : CacheCall.lookup (.updateStatus senderId clientMsgId serverMsgId status now) =
        some ((senderId, clientMsgId), now) := if_neg hzero
    exact .updated _ now hlookup serverMsgId status rfl

theorem touches_of_step (h : c.step call = some c') : c.Touches call c' := by
  cases call with
  | reserve senderId clientMsgId serverMsgId receiverId status now =>
    obtain rfl := Option.some.inj h
    exact c.touches_reserve senderId clientMsgId serverMsgId receiverId status now
  | updateStatus senderId clientMsgId serverMsgId status now =>
    obtain rfl := Option.some.inj h
    exact c.touches_updateStatus senderId clientMsgId serverMsgId status now
  | reorder i entries =>
    simp only [step] at h
    split_ifs at h with hi hperm
    obtain rfl := Option.some.inj h
    exact .reordered rfl ⟨i, hi⟩ entries hperm

section Bounded

/-- No shard has more than one entry above the maximum. -/
def Bounded (c : ClientDedupCache) (maxEntries : ℕ) : Prop :=
  c.maxEntriesPerShard = maxEntries ∧ ∀ i, (c.shards i).entries.length ≤ maxEntries + 1

variable {maxEntries : ℕ}

theorem Bounded.setShard (h : c.Bounded maxEntries) {i : Fin c.shardCount} {sh : Shard}
    (hsh : sh.entries.length ≤ maxEntries + 1) : (c.setShard i sh).Bounded maxEntries := by
  refine ⟨h.1, fun (j : Fin c.shardCount) => ?_⟩
  rw [shards_setShard]
  split_ifs
  · exact hsh
  · exact h.2 j

theorem Bounded.touches (h : c.Bounded maxEntries) (ht : c.Touches call c') :
    c'.Bounded maxEntries := by
  have hevicted : ∀ key now, (c.evicted key now).entries.length ≤ maxEntries := by
    intro key now
    rw [← h.1]
    exact Shard.length_evict_le _ _ _
  cases ht with
  | refused => exact h
  | found key now => exact h.setShard ((hevicted key now).trans (Nat.le_succ _))
  | reserved key now _ entry hnone =>
    apply h.setShard
    exact Nat.succ_le_succ (hevicted key now)
  | updated key now =>
    apply h.setShard
    have hlen := hevicted key now
    simp only [Shard.modify, List.length_map]
    omega
  | reordered _ i entries hperm =>
    apply h.setShard
    rw [Shard.reorder, hperm.length_eq]
    exact h.2 i

theorem bounded_make (shardCount : ℕ) (ttl : ℤ) (maxEntries : ℕ) :
    (make shardCount ttl maxEntries).Bounded maxEntries :=
  ⟨rfl, fun _ => Nat.zero_le _⟩

/-- In every state that calls can reach, a shard has at most one entry above the maximum. A scan of
it that finds too many unexpired entries leaves nine tenths of the maximum, removes only entries
that expire no later than every entry it keeps, and no more unexpired ones than the size requires;
any other scan removes no unexpired entry. -/
theorem shards_bounded_evict_oldest (shardCount : ℕ) (ttl : ℤ) (maxEntries : ℕ)
    (calls : List CacheCall) (c : ClientDedupCache)
    (hrun : Steps.run step (make shardCount ttl maxEntries) calls = some c) (i : Fin c.shardCount) :
    (c.shards i).entries.length ≤ maxEntries + 1 ∧
      ∀ now,
        let kept := ((c.shards i).evictExpiredLocked c.maxEntriesPerShard now).entries
        (((c.shards i).Overflows maxEntries now →
          kept.length ≤ maxEntries * 9 / 10 ∧
          (∀ gone ∈ (c.shards i).entries, gone ∉ kept → ∀ kv ∈ kept,
            gone.2.expiresAt ≤ kv.2.expiresAt) ∧
          (((c.shards i).unexpired now).filter (· ∉ kept)).length =
            ((c.shards i).unexpired now).length - maxEntries * 9 / 10) ∧
        (¬ (c.shards i).Overflows maxEntries now →
          ∀ kv ∈ (c.shards i).unexpired now, kv ∈ kept)) := by
  have hbounded : c.Bounded maxEntries := Steps.invariant_of_run (I := fun c => c.Bounded maxEntries)
    (fun _ _ _ h ht => h.touches (touches_of_step ht)) (bounded_make shardCount ttl maxEntries) hrun
  refine ⟨hbounded.2 i, fun now => ?_⟩
  rw [hbounded.1]
  refine ⟨fun h => ⟨?_, ?_, ?_⟩, fun h kv hkv => Shard.mem_evict_of_not_overflows h hkv⟩
  · exact (Shard.length_evict_of_overflows h).le
  · intro gone hin hgone kv hkv
    exact Shard.expiresAt_le_of_evicted h hin hgone hkv
  · have hcount := Shard.length_unexpired_evicted h
    exact Nat.eq_sub_of_add_eq hcount

def twoReservations : List CacheCall :=
  [.reserve 1 9 5 2 .received 10, .reserve 3 4 6 7 .received 20]

/-- One shard with room for one entry, after two reservations. -/
theorem shards_bounded_evict_oldest_two :
    ∃ c, Steps.run step (make 1 1000 1) twoReservations = some c ∧
      ∀ i, (c.shards i).entries.length ≤ 2 :=
  ⟨_, rfl, fun i => (shards_bounded_evict_oldest 1 1000 1 twoReservations _ rfl i).1⟩

end Bounded

end ClientDedupCache
end TermChat
