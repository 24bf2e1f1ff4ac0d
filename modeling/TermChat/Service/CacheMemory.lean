import TermChat.Service.CacheRuns

/-! How long a `ClientDedupCache` remembers a reservation, over runs of calls on any keys. -/
namespace TermChat
open Proto

namespace ClientDedupCache

variable {c c' : ClientDedupCache} {call : CacheCall}

def find (c : ClientDedupCache) (key : DedupKey) : Option CacheValue :=
  (c.shards (c.shardFor key)).find key

def reading (c : ClientDedupCache) (key : DedupKey) (call : CacheCall) : Option ℕ :=
  match call.lookup with
  | none => none
  | some (key', now) => if c.shardFor key' = c.shardFor key then some now else none

def OverflowEvicts (c : ClientDedupCache) (key : DedupKey) (now : ℕ) : Prop :=
  (c.shards (c.shardFor key)).Overflows c.maxEntriesPerShard now ∧
    (c.evicted key now).find key = none

/-- A call does not evict the entry of `key` by an overflow. -/
def Spares (key : DedupKey) (c : ClientDedupCache) (call : CacheCall) : Prop :=
  ∀ now, c.reading key call = some now → ¬ c.OverflowEvicts key now

instance (sh : Shard) (maxEntries now : ℕ) : Decidable (sh.Overflows maxEntries now) :=
  inferInstanceAs (Decidable (_ < _))

instance (c : ClientDedupCache) (key : DedupKey) (now : ℕ) : Decidable (c.OverflowEvicts key now) :=
  inferInstanceAs (Decidable (_ ∧ _))

instance (key : DedupKey) (c : ClientDedupCache) (call : CacheCall) : Decidable (Spares key c call) :=
  match h : c.reading key call with
  | none => isTrue fun now hnow => by simp [h] at hnow
  | some now => decidable_of_iff (¬ c.OverflowEvicts key now) (by simp [Spares, h])

variable {key : DedupKey} {v : CacheValue}

theorem find_setShard (c : ClientDedupCache) (i : Fin c.shardCount) (sh : Shard) (key : DedupKey) :
    (c.setShard i sh).find key = if c.shardFor key = i then sh.find key else c.find key := by
  change ((c.setShard i sh).shards (c.shardFor key)).find key = _
  rw [shards_setShard]
  split_ifs <;> rfl

/-- A scan keeps an entry that has not expired, unless it evicts it by an overflow. -/
theorem find_evicted (h : c.find key = some v) {now : ℕ} (hlive : (now : ℤ) < v.expiresAt)
    (hspared : ¬ c.OverflowEvicts key now) : (c.evicted key now).find key = some v := by
  have hunexpired := Shard.mem_unexpired.mpr ⟨Shard.mem_of_find h, hlive⟩
  by_cases hover : (c.shards (c.shardFor key)).Overflows c.maxEntriesPerShard now
  · cases hfind : (c.evicted key now).find key with
    | none => exact absurd ⟨hover, hfind⟩ hspared
    | some w => exact (Shard.find_of_find_evict hfind).symm.trans h
  · exact Shard.find_eq_some_iff.mpr (Shard.mem_evict_of_not_overflows hover hunexpired)

/-- What a call does to an entry that its scan keeps: nothing, or a matching `UpdateStatus` gives it
a status and a new lifetime. -/
theorem find_touches (h : c.find key = some v) (ht : c.Touches call c')
    (hkept : ∀ now, c.reading key call = some now → (c.evicted key now).find key = some v) :
    c'.find key = some v ∨ ∃ now status, c.reading key call = some now ∧
      call = .updateStatus key.1 key.2 v.entry.serverMsgId status now ∧
      c'.find key = some ⟨{ v.entry with status := status }, now + c.ttl⟩ := by
  -- a call on the shard of `key` finds the entry after its scan
  have hscan : ∀ key' now, call.lookup = some (key', now) → c.shardFor key = c.shardFor key' →
      c.reading key call = some now ∧ (c.evicted key' now).find key = some v := by
    intro key' now hlookup hshard
    have hreading : c.reading key call = some now := by
      simp only [reading, hlookup, hshard, if_true]
    refine ⟨hreading, ?_⟩
    have hfind := hkept now hreading
    unfold evicted at hfind ⊢
    rwa [hshard] at hfind
  cases ht with
  | refused => exact .inl h
  | found key' now hlookup =>
    rw [find_setShard]
    split_ifs with hshard
    · exact .inl (hscan key' now hlookup hshard).2
    · exact .inl h
  | reserved key' now hlookup entry hnone =>
    rw [find_setShard]
    split_ifs with hshard
    · obtain ⟨-, hfind⟩ := hscan key' now hlookup hshard
      have hne : key ≠ key' := by
        rintro rfl
        rw [hfind] at hnone
        cases hnone
      rw [Shard.find_emplace, if_neg hne]
      exact .inl hfind
    · exact .inl h
  | updated key' now hlookup serverMsgId status hcall =>
    rw [find_setShard]
    split_ifs with hshard
    · obtain ⟨hreading, hfind⟩ := hscan key' now hlookup hshard
      rw [Shard.find_modify]
      split_ifs with hkey
      · rw [hfind, Option.map_some]
        split_ifs with hid
        · exact .inl rfl
        · refine .inr ⟨now, status, hreading, ?_, rfl⟩
          rw [hcall, hkey, not_not.mp hid]
      · exact .inl hfind
    · exact .inl h
  | reordered hlookup i entries hperm =>
    rw [find_setShard]
    split_ifs with hshard
    · left
      apply Shard.find_eq_some_iff.mpr
      apply hperm.mem_iff.mpr
      rw [← hshard]
      exact Shard.mem_of_find h
    · exact .inl h

theorem reading_touches (ht : c.Touches call c') : c'.reading = c.reading := by
  cases ht <;> rfl

theorem ttl_touches (ht : c.Touches call c') : c'.ttl = c.ttl := by
  cases ht <;> rfl

/-- The cache has `v` for `key`, with the ids of its reservation, and counts its lifetime from one
of the clock readings in `seen`. -/
structure Remembers (c : ClientDedupCache) (key : DedupKey) (serverMsgId receiverId : UInt64)
    (seen : List ℕ) (v : CacheValue) : Prop where
  find : c.find key = some v
  serverMsgId : v.entry.serverMsgId = serverMsgId
  receiverId : v.entry.receiverId = receiverId
  born : ∃ x ∈ seen, v.expiresAt = x + c.ttl

variable {serverMsgId receiverId : UInt64} {seen : List ℕ} {t : ℕ}

theorem Remembers.touches (h : c.Remembers key serverMsgId receiverId seen v)
    (ht : c.Touches call c') (hspared : Spares key c call)
    (hlive : ∀ now, c.reading key call = some now → (now : ℤ) < v.expiresAt) :
    ∃ v', c'.Remembers key serverMsgId receiverId (seen ++ (c.reading key call).toList) v' := by
  have hkept : ∀ now, c.reading key call = some now → (c.evicted key now).find key = some v :=
    fun now hreading => find_evicted h.find (hlive now hreading) (hspared now hreading)
  rcases find_touches h.find ht hkept with hfind | ⟨now, status, hreading, -, hfind⟩
  · obtain ⟨x, hx, hborn⟩ := h.born
    refine ⟨v, hfind, h.serverMsgId, h.receiverId, x, List.mem_append_left _ hx, ?_⟩
    rw [ttl_touches ht, hborn]
  · refine ⟨_, hfind, h.serverMsgId, h.receiverId, now, ?_, ?_⟩
    · rw [hreading]
      exact List.mem_append_right _ (List.mem_singleton_self now)
    · rw [ttl_touches ht]

/-- A run whose readings do not go back and stay below the end of the first lifetime. -/
theorem Remembers.run (h : c.Remembers key serverMsgId receiverId seen v) {calls : List CacheCall}
    (hseen : ∀ x ∈ seen, t ≤ x) (hrun : Steps.run step c calls = some c')
    (hspared : Steps.Meets step (Spares key) c calls)
    (hclock : ∀ x ∈ calls.filterMap (c.reading key), t ≤ x ∧ (x : ℤ) < t + c.ttl) :
    ∃ v', c'.Remembers key serverMsgId receiverId (seen ++ calls.filterMap (c.reading key)) v' := by
  induction calls generalizing c seen v with
  | nil =>
    obtain rfl := Option.some.inj hrun
    rw [List.filterMap_nil, List.append_nil]
    exact ⟨v, h⟩
  | cons call calls ih =>
    obtain ⟨d, hd, hrun⟩ := Steps.run_cons_eq_some.mp hrun
    have ht := touches_of_step hd
    have hfront : ∀ now, c.reading key call = some now → t ≤ now ∧ (now : ℤ) < t + c.ttl := by
      intro now hreading
      apply hclock
      exact List.mem_filterMap.mpr ⟨call, List.mem_cons_self, hreading⟩
    have hlive : ∀ now, c.reading key call = some now → (now : ℤ) < v.expiresAt := by
      intro now hreading
      obtain ⟨x, hx, hborn⟩ := h.born
      have htx := hseen x hx
      have hnow := (hfront now hreading).2
      omega
    obtain ⟨w, hw⟩ := h.touches ht hspared.1 hlive
    have hsplit : (call :: calls).filterMap (c.reading key) =
        (c.reading key call).toList ++ calls.filterMap (c.reading key) := by
      rw [List.filterMap_cons]
      cases c.reading key call <;> rfl
    have hseen' : ∀ x ∈ seen ++ (c.reading key call).toList, t ≤ x := by
      intro x hx
      rcases List.mem_append.mp hx with hx | hx
      · exact hseen x hx
      · exact (hfront x (Option.mem_toList.mp hx)).1
    have hclock' : ∀ x ∈ calls.filterMap (d.reading key), t ≤ x ∧ (x : ℤ) < t + d.ttl := by
      intro x hx
      rw [reading_touches ht] at hx
      rw [ttl_touches ht]
      exact hclock x (hsplit ▸ List.mem_append_right _ hx)
    have hrest := ih hw hseen' hrun (hspared.2 d hd) hclock'
    rwa [reading_touches ht, List.append_assoc, ← hsplit] at hrest

variable {senderId clientMsgId : UInt64}

theorem remembers_reserve {status : MessageAckStatus}
    (h : (c.reserve senderId clientMsgId serverMsgId receiverId status t).1.state = .reserved) :
    (senderId ≠ 0 ∧ clientMsgId ≠ 0 ∧ serverMsgId ≠ 0 ∧ receiverId ≠ 0) ∧
      (c.reserve senderId clientMsgId serverMsgId receiverId status t).2.Remembers
        (senderId, clientMsgId) serverMsgId receiverId [t] ⟨⟨serverMsgId, receiverId, status⟩, t + c.ttl⟩ := by
  unfold ClientDedupCache.reserve at h ⊢
  split_ifs at h ⊢ with hzero
  refine ⟨by simpa only [not_or] using hzero, ?_⟩
  dsimp only at h ⊢
  split at h
  · dsimp only at h
    split_ifs at h
  · refine ⟨?_, rfl, rfl, t, List.mem_singleton_self t, rfl⟩
    rw [find_setShard, if_pos rfl, Shard.find_emplace, if_pos rfl]

theorem reserve_of_find_evicted {receiverId' : UInt64} {status : MessageAckStatus} {now : ℕ}
    (hids : senderId ≠ 0 ∧ clientMsgId ≠ 0 ∧ serverMsgId ≠ 0 ∧ receiverId' ≠ 0)
    (h : (c.evicted (senderId, clientMsgId) now).find (senderId, clientMsgId) = some v) :
    (c.reserve senderId clientMsgId serverMsgId receiverId' status now).1 =
      ⟨if receiverId' = v.entry.receiverId then .duplicate else .conflict, v.entry⟩ := by
  have hzero : ¬ (senderId = 0 ∨ clientMsgId = 0 ∨ serverMsgId = 0 ∨ receiverId' = 0) := by
    simpa only [not_or] using hids
  unfold ClientDedupCache.reserve
  rw [if_neg hzero]
  dsimp only
  split
  · rename_i w hw
    obtain rfl := Option.some.inj (h.symm.trans hw)
    by_cases hr : receiverId' = v.entry.receiverId
    · simp [hr]
    · simp [hr, Ne.symm hr]
  · rename_i hnone
    have hsome := h.symm.trans hnone
    cases hsome

theorem find_of_duplicate {status : MessageAckStatus} {now : ℕ}
    (h : (c.reserve senderId clientMsgId serverMsgId receiverId status now).1.state = .duplicate) :
    ∃ v, c.find (senderId, clientMsgId) = some v ∧
      (c.reserve senderId clientMsgId serverMsgId receiverId status now).1.entry = v.entry := by
  unfold ClientDedupCache.reserve at h ⊢
  split_ifs at h ⊢
  dsimp only at h ⊢
  split
  · rename_i v hfind
    exact ⟨v, Shard.find_of_find_evict hfind, rfl⟩
  · split at h
    · rename_i hnone w hsome
      have hboth := hnone.symm.trans hsome
      cases hboth
    · cases h

theorem find_updateStatus {now : ℕ} (hids : senderId ≠ 0 ∧ clientMsgId ≠ 0 ∧ serverMsgId ≠ 0)
    (h : (c.evicted (senderId, clientMsgId) now).find (senderId, clientMsgId) = some v)
    (status : MessageAckStatus) :
    (c.updateStatus senderId clientMsgId serverMsgId status now).find (senderId, clientMsgId) =
      some (if v.entry.serverMsgId ≠ serverMsgId then v
        else ⟨{ v.entry with status := status }, now + c.ttl⟩) := by
  have hzero : ¬ (senderId = 0 ∨ clientMsgId = 0 ∨ serverMsgId = 0) := by
    simpa only [not_or] using hids
  unfold ClientDedupCache.updateStatus
  rw [if_neg hzero]
  dsimp only
  rw [find_setShard, if_pos rfl, Shard.find_modify, if_pos rfl]
  exact congrArg (Option.map _) h

/-- A reservation at `t`, and any calls after it with readings that do not go back and lie before
`t + ttl`, none of which evicts the entry by an overflow: the cache still has the entry, for at
least that long. While it has not expired, the next call on the key finds it: a `Reserve` reports
it, an `UpdateStatus` with another id leaves it as it is, and one with its id sets the status and
does not shorten its life. Only the readings of calls on the same shard matter. -/
theorem reservation_remembered (c : ClientDedupCache)
    (senderId clientMsgId serverMsgId receiverId : UInt64) (status : MessageAckStatus) (t : ℕ)
    (hres : (c.reserve senderId clientMsgId serverMsgId receiverId status t).1.state = .reserved)
    (calls : List CacheCall) (c' : ClientDedupCache)
    (hrun : Steps.run step (c.reserve senderId clientMsgId serverMsgId receiverId status t).2 calls =
      some c')
    (hspared : Steps.Meets step (Spares (senderId, clientMsgId))
      (c.reserve senderId clientMsgId serverMsgId receiverId status t).2 calls)
    (hclock : (t :: calls.filterMap (c.reading (senderId, clientMsgId))).Pairwise (· ≤ ·))
    (hlast : ∀ x ∈ calls.filterMap (c.reading (senderId, clientMsgId)), (x : ℤ) < t + c.ttl) :
    ∃ v, c'.find (senderId, clientMsgId) = some v ∧ v.entry.serverMsgId = serverMsgId ∧
      v.entry.receiverId = receiverId ∧ t + c.ttl ≤ v.expiresAt ∧
      ∀ t', (∀ x ∈ t :: calls.filterMap (c.reading (senderId, clientMsgId)), x ≤ t') →
        (t' : ℤ) < v.expiresAt → ¬ c'.OverflowEvicts (senderId, clientMsgId) t' →
        (∀ serverMsgId' receiverId' status', serverMsgId' ≠ 0 → receiverId' ≠ 0 →
          (c'.reserve senderId clientMsgId serverMsgId' receiverId' status' t').1 =
            ⟨if receiverId' = receiverId then .duplicate else .conflict, v.entry⟩) ∧
        (∀ serverMsgId' status', serverMsgId' ≠ 0 → serverMsgId' ≠ serverMsgId →
          (c'.updateStatus senderId clientMsgId serverMsgId' status' t').find
            (senderId, clientMsgId) = some v) ∧
        (∀ status', (c'.updateStatus senderId clientMsgId serverMsgId status' t').find
            (senderId, clientMsgId) = some ⟨{ v.entry with status := status' }, t' + c.ttl⟩ ∧
          v.expiresAt ≤ t' + c.ttl) := by
  obtain ⟨hids, hstart⟩ := remembers_reserve hres
  have ht := c.touches_reserve senderId clientMsgId serverMsgId receiverId status t
  have hreading := reading_touches ht
  have httl := ttl_touches ht
  have hafter := (List.pairwise_cons.mp hclock).1
  obtain ⟨v, hv⟩ := hstart.run (t := t) (by simp) hrun hspared (by
    rw [hreading, httl]
    exact fun x hx => ⟨hafter x hx, hlast x hx⟩)
  have hrunTtl : c'.ttl = c.ttl := by
    rw [← httl]
    exact Steps.invariant_of_run
      (I := fun d => d.ttl = (c.reserve senderId clientMsgId serverMsgId receiverId status t).2.ttl)
      (fun _ _ _ hd hstep => (ttl_touches (touches_of_step hstep)).trans hd) rfl hrun
  rw [hreading] at hv
  obtain ⟨x, hx, hborn⟩ := hv.born
  have htx : t ≤ x := by
    rcases List.mem_append.mp hx with hx | hx
    · rw [List.mem_singleton.mp hx]
    · exact hafter x hx
  have hseen : x ∈ t :: calls.filterMap (c.reading (senderId, clientMsgId)) := hx
  refine ⟨v, hv.find, hv.serverMsgId, hv.receiverId, by omega, ?_⟩
  intro t' hlatest hlive hspared'
  have hfind := find_evicted hv.find hlive hspared'
  refine ⟨?_, ?_, ?_⟩
  · intro serverMsgId' receiverId' status' hserver hreceiver
    rw [reserve_of_find_evicted ⟨hids.1, hids.2.1, hserver, hreceiver⟩ hfind, hv.receiverId]
  · intro serverMsgId' status' hserver hne
    rw [find_updateStatus ⟨hids.1, hids.2.1, hserver⟩ hfind, hv.serverMsgId, if_pos hne.symm]
  · intro status'
    have hlate := hlatest x hseen
    rw [find_updateStatus ⟨hids.1, hids.2.1, hids.2.2.1⟩ hfind, hv.serverMsgId, hrunTtl]
    refine ⟨by simp, ?_⟩
    omega

/-- A status update and a call on another key, and the retransmission that finds the entry. -/
theorem reservation_remembered_retry :
    ∃ c', Steps.run step ((make 1 1000 4).reserve 1 9 5 2 .received 10).2
        [.updateStatus 1 9 5 .persisted 20, .reserve 3 4 6 7 .received 30] = some c' ∧
      (c'.reserve 1 9 8 2 .received 40).1.state = .duplicate := by
  obtain ⟨v, -, -, -, hlong, hnext⟩ := reservation_remembered (make 1 1000 4) 1 9 5 2 .received 10
    (by decide +kernel) [.updateStatus 1 9 5 .persisted 20, .reserve 3 4 6 7 .received 30] _ rfl
    (by decide +kernel) (by decide +kernel) (by decide +kernel)
  have hlive : ((40 : ℕ) : ℤ) < v.expiresAt := lt_of_lt_of_le (by decide) hlong
  refine ⟨_, rfl, ?_⟩
  rw [(hnext 40 (by decide +kernel) hlive (by decide +kernel)).1 8 2 .received (by decide) (by decide)]
  rfl

end ClientDedupCache
end TermChat
