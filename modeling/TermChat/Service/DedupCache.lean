import TermChat.Dao.Scylla
import Mathlib.Data.Int.Notation
import Mathlib.Data.List.Nodup

/-! `ClientDedupCache`: the sharded map of the fast mode, with expiry and eviction. Times are
nanoseconds of `steady_clock`. -/
namespace TermChat
open Proto

namespace ClientDedupCache

structure Entry where
  serverMsgId : UInt64 := 0
  receiverId : UInt64 := 0
  status : MessageAckStatus := .unknown
  deriving DecidableEq, Repr

inductive ReserveState where
  | reserved | duplicate | conflict
  deriving DecidableEq, Repr

structure ReserveResult where
  state : ReserveState := .reserved
  entry : Entry := {}
  deriving DecidableEq, Repr

structure CacheValue where
  entry : Entry
  expiresAt : ℤ
  deriving DecidableEq, Repr

def keyHash (key : DedupKey) : UInt64 :=
  let mixed := key.1 ^^^
    (key.2 + 0x9e3779b97f4a7c15 + (key.1 <<< (6 : UInt64)) + (key.1 >>> (2 : UInt64)))
  mixed ^^^ (mixed >>> (32 : UInt64))

structure Shard where
  entries : List (DedupKey × CacheValue)
  nextEvictAt : ℕ
  nodup : (entries.map Prod.fst).Nodup

namespace Shard

def init : Shard := ⟨[], 0, List.nodup_nil⟩

def find (sh : Shard) (key : DedupKey) : Option CacheValue := sh.entries.lookup key

def restrict (sh : Shard) (entries : List (DedupKey × CacheValue)) (nextEvictAt : ℕ)
    (h : entries.Sublist sh.entries) : Shard :=
  ⟨entries, nextEvictAt, (h.map Prod.fst).nodup sh.nodup⟩

/-- The loop that erases the keys that expire first, while there are too many entries. -/
def eraseOldest (targetSize : ℕ) :
    List DedupKey → List (DedupKey × CacheValue) → List (DedupKey × CacheValue)
  | [], entries => entries
  | key :: keys, entries =>
    if targetSize < entries.length then
      eraseOldest targetSize keys (entries.filter fun kv => kv.1 ≠ key)
    else entries

private theorem eraseOldest_sublist (targetSize : ℕ) (keys : List DedupKey)
    (entries : List (DedupKey × CacheValue)) :
    (eraseOldest targetSize keys entries).Sublist entries := by
  induction keys generalizing entries with
  | nil => exact List.Sublist.refl entries
  | cons key keys ih =>
    unfold eraseOldest
    split_ifs
    · exact (ih _).trans List.filter_sublist
    · exact List.Sublist.refl entries

/-- What `EvictExpiredLocked` leaves. Keys that expire together are erased in the order of the
list; the order in which `std::sort` leaves them is not specified. -/
def survivors (maxEntries now : ℕ) (entries : List (DedupKey × CacheValue)) :
    List (DedupKey × CacheValue) :=
  let live := entries.filter fun kv => (now : ℤ) < kv.2.expiresAt
  if maxEntries < live.length then
    let keys := (live.mergeSort fun a b => a.2.expiresAt ≤ b.2.expiresAt).map Prod.fst
    eraseOldest (maxEntries * 9 / 10) keys live
  else live

theorem survivors_sublist (maxEntries now : ℕ) (entries : List (DedupKey × CacheValue)) :
    (survivors maxEntries now entries).Sublist entries := by
  unfold survivors
  dsimp only
  split_ifs
  · exact (eraseOldest_sublist _ _ _).trans List.filter_sublist
  · exact List.filter_sublist

def evictExpiredLocked (sh : Shard) (maxEntries now : ℕ) : Shard :=
  if now < sh.nextEvictAt ∧ sh.entries.length ≤ maxEntries then sh
  else
    sh.restrict (survivors maxEntries now sh.entries) (now + 5000000000)
      (survivors_sublist maxEntries now sh.entries)

theorem mem_of_mem_evict {sh : Shard} {maxEntries now : ℕ} {kv : DedupKey × CacheValue}
    (h : kv ∈ (sh.evictExpiredLocked maxEntries now).entries) : kv ∈ sh.entries := by
  unfold evictExpiredLocked at h
  split_ifs at h
  · exact h
  · exact (survivors_sublist maxEntries now sh.entries).subset h

theorem mem_of_find {sh : Shard} {key : DedupKey} {v : CacheValue} (h : sh.find key = some v) :
    (key, v) ∈ sh.entries := by
  obtain ⟨l₁, l₂, hl, -⟩ := List.lookup_eq_some_iff.mp h
  rw [hl]
  exact List.mem_append_right l₁ List.mem_cons_self

theorem find_eq_some_iff {sh : Shard} {key : DedupKey} {v : CacheValue} :
    sh.find key = some v ↔ (key, v) ∈ sh.entries := by
  constructor
  · exact mem_of_find
  · intro hmem
    cases hfind : sh.find key with
    | none =>
      have hnone := List.lookup_eq_none_iff.mp hfind (key, v) hmem
      simp at hnone
    | some w =>
      have hsame : (key, w) = (key, v) :=
        List.inj_on_of_nodup_map sh.nodup (mem_of_find hfind) hmem rfl
      rw [(Prod.mk.inj hsame).2]

theorem find_of_find_evict {sh : Shard} {maxEntries now : ℕ} {key : DedupKey} {v : CacheValue}
    (h : (sh.evictExpiredLocked maxEntries now).find key = some v) : sh.find key = some v :=
  find_eq_some_iff.mpr (mem_of_mem_evict (mem_of_find h))

private theorem notMem_of_find {sh : Shard} {key : DedupKey} (h : sh.find key = none) :
    key ∉ sh.entries.map Prod.fst := by
  have hnone := List.lookup_eq_none_iff.mp h
  intro hmem
  obtain ⟨kv, hkv, rfl⟩ := List.mem_map.mp hmem
  simpa using hnone kv hkv

def emplace (sh : Shard) (key : DedupKey) (v : CacheValue) (h : sh.find key = none) : Shard :=
  ⟨(key, v) :: sh.entries, sh.nextEvictAt, List.nodup_cons.mpr ⟨notMem_of_find h, sh.nodup⟩⟩

theorem find_emplace (sh : Shard) (key : DedupKey) (v : CacheValue) (h : sh.find key = none)
    (k : DedupKey) : (sh.emplace key v h).find k = if k = key then some v else sh.find k := by
  unfold find emplace
  rw [List.lookup_cons]
  by_cases hk : k = key
  · simp [hk]
  · have hbeq : (k == key) = false := beq_false_of_ne hk
    rw [hbeq, if_neg hk]

def modify (sh : Shard) (key : DedupKey) (f : CacheValue → CacheValue) : Shard :=
  ⟨sh.entries.map fun kv => if kv.1 = key then (kv.1, f kv.2) else kv, sh.nextEvictAt, by
    have hkeys : (sh.entries.map fun kv => if kv.1 = key then (kv.1, f kv.2) else kv).map Prod.fst =
        sh.entries.map Prod.fst := by
      rw [List.map_map]
      apply List.map_congr_left
      intro kv _
      by_cases hk : kv.1 = key <;> simp [hk]
    exact hkeys ▸ sh.nodup⟩

theorem find_modify (sh : Shard) (key : DedupKey) (f : CacheValue → CacheValue) (k : DedupKey) :
    (sh.modify key f).find k = if k = key then (sh.find k).map f else sh.find k := by
  cases hk : sh.find k with
  | none =>
    have hnone : (sh.modify key f).find k = none := by
      apply List.lookup_eq_none_iff.mpr
      intro kv hkv
      obtain ⟨old, hold, rfl⟩ := List.mem_map.mp hkv
      have hne := List.lookup_eq_none_iff.mp hk old hold
      split_ifs <;> exact hne
    rw [hnone, Option.map_none, ite_self]
  | some v =>
    have hmem := mem_of_find hk
    split_ifs with heq
    · rw [Option.map_some, find_eq_some_iff]
      exact List.mem_map.mpr ⟨(k, v), hmem, if_pos heq⟩
    · rw [find_eq_some_iff]
      exact List.mem_map.mpr ⟨(k, v), hmem, if_neg heq⟩

private theorem mem_modify {sh : Shard} {key : DedupKey} {f : CacheValue → CacheValue}
    {kv : DedupKey × CacheValue} (h : kv ∈ (sh.modify key f).entries) :
    ∃ old ∈ sh.entries, kv = old ∨ kv = (old.1, f old.2) := by
  obtain ⟨old, hold, rfl⟩ := List.mem_map.mp h
  refine ⟨old, hold, ?_⟩
  split_ifs
  · exact .inr rfl
  · exact .inl rfl

end Shard
end ClientDedupCache

structure ClientDedupCache where
  shardCount : ℕ
  shardCount_pos : 0 < shardCount
  shards : Fin shardCount → ClientDedupCache.Shard
  ttl : ℤ
  maxEntriesPerShard : ℕ

namespace ClientDedupCache

/-- The default constructor: 256 shards, 30 minutes, 8192 entries a shard. -/
def init : ClientDedupCache := ⟨256, by decide, fun _ => Shard.init, 1800000000000, 8192⟩

def make (shardCount : ℕ) (ttl : ℤ) (maxEntriesPerShard : ℕ) : ClientDedupCache :=
  ⟨max 1 shardCount, by omega, fun _ => Shard.init, ttl, maxEntriesPerShard⟩

def shardFor (c : ClientDedupCache) (key : DedupKey) : Fin c.shardCount :=
  ⟨(keyHash key).toNat % c.shardCount, Nat.mod_lt _ c.shardCount_pos⟩

def setShard (c : ClientDedupCache) (i : Fin c.shardCount) (sh : Shard) : ClientDedupCache :=
  { c with shards := Function.update c.shards i sh }

theorem shards_setShard (c : ClientDedupCache) (i j : Fin c.shardCount) (sh : Shard) :
    (c.setShard i sh).shards j = if j = i then sh else c.shards j :=
  Function.update_apply c.shards i sh j

def reserve (c : ClientDedupCache) (senderId clientMsgId serverMsgId receiverId : UInt64)
    (status : MessageAckStatus) (now : ℕ) : ReserveResult × ClientDedupCache :=
  if senderId = 0 ∨ clientMsgId = 0 ∨ serverMsgId = 0 ∨ receiverId = 0 then
    ({ state := .conflict }, c)
  else
    let key := (senderId, clientMsgId)
    let i := c.shardFor key
    let sh := (c.shards i).evictExpiredLocked c.maxEntriesPerShard now
    match h : sh.find key with
    | some v =>
      (⟨if v.entry.receiverId ≠ receiverId then .conflict else .duplicate, v.entry⟩, c.setShard i sh)
    | none =>
      let entry : Entry := ⟨serverMsgId, receiverId, status⟩
      (⟨.reserved, entry⟩, c.setShard i (sh.emplace key ⟨entry, now + c.ttl⟩ h))

def updateStatus (c : ClientDedupCache) (senderId clientMsgId serverMsgId : UInt64)
    (status : MessageAckStatus) (now : ℕ) : ClientDedupCache :=
  if senderId = 0 ∨ clientMsgId = 0 ∨ serverMsgId = 0 then c
  else
    let key := (senderId, clientMsgId)
    let i := c.shardFor key
    let sh := (c.shards i).evictExpiredLocked c.maxEntriesPerShard now
    c.setShard i (sh.modify key fun v =>
      if v.entry.serverMsgId ≠ serverMsgId then v
      else ⟨{ v.entry with status := status }, now + c.ttl⟩)

def All (P : DedupKey → Entry → Prop) (c : ClientDedupCache) : Prop :=
  ∀ i, ∀ kv ∈ (c.shards i).entries, P kv.1 kv.2.entry

variable {c : ClientDedupCache} {P : DedupKey → Entry → Prop}

theorem all_init : All P init := fun _ _ h => absurd h List.not_mem_nil

theorem All.mono {Q : DedupKey → Entry → Prop} (h : c.All P) (hPQ : ∀ k e, P k e → Q k e) :
    c.All Q := fun i kv hkv => hPQ _ _ (h i kv hkv)

theorem All.setShard (h : c.All P) {i : Fin c.shardCount} {sh : Shard}
    (hsh : ∀ kv ∈ sh.entries, P kv.1 kv.2.entry) : (c.setShard i sh).All P := by
  intro (j : Fin c.shardCount) kv hkv
  rw [shards_setShard] at hkv
  split_ifs at hkv
  · exact hsh kv hkv
  · exact h j kv hkv

theorem All.evict (h : c.All P) (i : Fin c.shardCount) (n now : ℕ) :
    ∀ kv ∈ ((c.shards i).evictExpiredLocked n now).entries, P kv.1 kv.2.entry :=
  fun kv hkv => h i kv (Shard.mem_of_mem_evict hkv)

theorem All.updateStatus (h : c.All P) (hP : ∀ k e st, P k e → P k { e with status := st })
    (senderId clientMsgId serverMsgId : UInt64) (status : MessageAckStatus) (now : ℕ) :
    (c.updateStatus senderId clientMsgId serverMsgId status now).All P := by
  unfold ClientDedupCache.updateStatus
  split_ifs
  · exact h
  · apply h.setShard
    intro kv hkv
    obtain ⟨old, hold, hkv⟩ := Shard.mem_modify hkv
    have hPold := h.evict _ _ _ old hold
    cases hkv with
    | inl hkv => exact hkv ▸ hPold
    | inr hkv =>
      subst hkv
      by_cases hid : old.2.entry.serverMsgId ≠ serverMsgId
      · simpa only [if_pos hid] using hPold
      · simpa only [if_neg hid] using hP _ _ _ hPold

theorem All.reserve (h : c.All P) (senderId clientMsgId serverMsgId receiverId : UInt64)
    (status : MessageAckStatus) (now : ℕ)
    (hnew : (c.reserve senderId clientMsgId serverMsgId receiverId status now).1.state = .reserved →
      P (senderId, clientMsgId) ⟨serverMsgId, receiverId, status⟩) :
    (c.reserve senderId clientMsgId serverMsgId receiverId status now).2.All P := by
  unfold ClientDedupCache.reserve at hnew ⊢
  split_ifs at hnew ⊢
  · exact h
  · dsimp only at hnew ⊢
    split
    · exact h.setShard (h.evict _ _ _)
    · rename_i hfind
      apply h.setShard
      intro kv hkv
      cases List.mem_cons.mp hkv with
      | inl hkv =>
        subst hkv
        apply hnew
        split
        · rename_i hsome
          rw [hfind] at hsome
          cases hsome
        · rfl
      | inr hkv => exact h.evict _ _ _ kv hkv

theorem All.duplicate (h : c.All P) {senderId clientMsgId serverMsgId receiverId : UInt64}
    {status : MessageAckStatus} {now : ℕ}
    (hdup : (c.reserve senderId clientMsgId serverMsgId receiverId status now).1.state =
      .duplicate) :
    P (senderId, clientMsgId)
      (c.reserve senderId clientMsgId serverMsgId receiverId status now).1.entry := by
  unfold ClientDedupCache.reserve at hdup ⊢
  split_ifs at hdup ⊢
  dsimp only at hdup ⊢
  split
  · rename_i hfind
    exact h.evict _ _ _ _ (Shard.mem_of_find hfind)
  · split at hdup
    · rename_i hnone v hsome
      exact absurd (hnone.symm.trans hsome) nofun
    · cases hdup

end ClientDedupCache
end TermChat
