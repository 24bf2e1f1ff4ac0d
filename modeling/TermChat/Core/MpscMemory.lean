import TermChat.Core.MpscTail
import Mathlib.Data.Finset.Basic

/-! `MPSCQueue` in memory: a node has an address, `dequeue` deletes the node that it leaves, and the
address of a deleted node may be that of a later one. While nobody holds a pointer to a deleted node,
addresses are names for the numbered nodes, and the queue behaves as the one in which none is used
again. -/
namespace TermChat

/-- The queue with addresses for nodes. `live` are the addresses of the nodes that exist. -/
structure HeapQueue (α : Type) where
  queue : MPSCQueue α
  live : Finset ℕ

namespace MPSCQueue

variable {α : Type}

def Producer.nodes : Producer → List ℕ
  | .idle => []
  | .loadTail n => [n]
  | .loadNext n t | .casNext n t | .swing n t => [n, t]
  | .recheck n t next => n :: t :: next.toList
  | .help n t x => [n, t, x]

def Producer.map (f : ℕ → ℕ) : Producer → Producer
  | .idle => .idle
  | .loadTail n => .loadTail (f n)
  | .loadNext n t => .loadNext (f n) (f t)
  | .recheck n t next => .recheck (f n) (f t) (next.map f)
  | .casNext n t => .casNext (f n) (f t)
  | .swing n t => .swing (f n) (f t)
  | .help n t x => .help (f n) (f t) (f x)

def Consumer.nodes : Consumer α → List ℕ
  | .idle | .loadHead _ => []
  | .loadNext _ head => [head]
  | .storeHead _ head next _ => [head, next]

def Consumer.map (f : ℕ → ℕ) : Consumer α → Consumer α
  | .idle => .idle
  | .loadHead more => .loadHead more
  | .loadNext more head => .loadNext more (f head)
  | .storeHead more head next result => .storeHead more (f head) (f next) result

/-- The access of producer `p` is its exchange on `old_tail->next`, and it succeeds. -/
def linksNow (q : MPSCQueue α) (p : ℕ) (spurious : Bool) : Bool :=
  match q.producers p with
  | .casNext _ t => (q.next t).isNone && !spurious
  | _ => false

variable {q t : MPSCQueue α}

/-- The accesses of a producer by their effect: its link, and the others, which write at most to
`tail_`. -/
inductive Produces (q : MPSCQueue α) (p : ℕ) (spurious : Bool) : MPSCQueue α → Prop where
  | links (n a : ℕ) (hpc : q.producers p = .casNext n a) (hlinks : q.linksNow p spurious = true) :
      Produces q p spurious (q.link p n a)
  | moves (tail : ℕ) (pc : Producer) (hbusy : q.producers p ≠ .idle)
      (hlinks : q.linksNow p spurious = false)
      (hunlinked : pc.unlinked = (q.producers p).unlinked) :
      Produces q p spurious ({ q with tail := tail }.goto p pc)

theorem produces_of_produce {p : ℕ} {spurious : Bool} (ht : q.produce p spurious = some t) :
    Produces q p spurious t := by
  unfold produce at ht
  cases hpc : q.producers p with
  | idle =>
    rw [hpc] at ht
    cases ht
  | casNext n a =>
    rw [hpc] at ht
    dsimp only at ht
    split_ifs at ht with hcas
    · cases ht
      exact .links n a hpc (by simp [linksNow, hpc, hcas])
    · cases ht
      refine .moves q.tail (.loadTail n) (by rw [hpc]; nofun) ?_ (by rw [hpc]; rfl)
      simpa [linksNow, hpc] using hcas
  | recheck n a next =>
    rw [hpc] at ht
    cases ht
    refine .moves q.tail _ (by rw [hpc]; nofun) (by simp [linksNow, hpc]) ?_
    rw [hpc]
    split_ifs
    · cases next <;> rfl
    · rfl
  | _ =>
    rw [hpc] at ht
    cases ht
    exact .moves _ _ (by rw [hpc]; nofun) (by simp [linksNow, hpc]) (by rw [hpc]; rfl)

theorem contents_produce (h : q.Inv) {p : ℕ} {spurious : Bool}
    (ht : q.produce p spurious = some t) : t.contents =
      if q.linksNow p spurious then q.contents ++ (q.pending p).toList else q.contents := by
  cases produces_of_produce ht with
  | links n a hpc hlinks =>
    have hpending : q.pending p = some (q.data n) := by
      unfold pending
      rw [hpc]
      rfl
    rw [if_pos hlinks, hpending]
    show (q.link p n a).linkedValues.drop q.dequeued.length = _
    rw [linkedValues_link, List.drop_append_of_le_length h.dequeued.length_le]
    rfl
  | moves tail pc hbusy hlinks hunlinked =>
    rw [hlinks]
    rfl

theorem frame_produce {p : ℕ} {spurious : Bool} (ht : q.produce p spurious = some t) :
    q.producers p ≠ .idle ∧ (∀ r, r ≠ p → t.producers r = q.producers r) ∧ t.data = q.data ∧
      t.consumer = q.consumer := by
  cases produces_of_produce ht with
  | links n a hpc hlinks =>
    exact ⟨by rw [hpc]; nofun, fun r hr => Function.update_of_ne hr _ _, rfl, rfl⟩
  | moves tail pc hbusy hlinks hunlinked =>
    exact ⟨hbusy, fun r hr => Function.update_of_ne hr _ _, rfl, rfl⟩

theorem exists_pending_of_linksNow {p : ℕ} {spurious : Bool}
    (h : q.linksNow p spurious = true) : ∃ val, q.pending p = some val := by
  unfold linksNow at h
  split at h
  · rename_i n a hpc
    exact ⟨q.data n, by simp [pending, hpc, Producer.unlinked]⟩
  · cases h

/-- A producer keeps its value until it links it. -/
theorem pending_produce {p : ℕ} {spurious : Bool} (ht : q.produce p spurious = some t) (r : ℕ) :
    t.pending r = if r = p ∧ q.linksNow p spurious then none else q.pending r := by
  by_cases hr : r = p
  · subst hr
    cases produces_of_produce ht with
    | links n a hpc hlinks =>
      rw [if_pos ⟨rfl, hlinks⟩]
      simp [pending, link, Producer.unlinked]
    | moves tail pc hbusy hlinks hunlinked =>
      simp [pending, goto, hlinks, hunlinked]
  · obtain ⟨-, hproducers, hdata, -⟩ := frame_produce ht
    unfold pending
    rw [hproducers r hr, hdata, if_neg (fun h => hr h.1)]

theorem contents_storeHead (h : q.Inv) {x : ℕ} {c : Consumer α} {result : α}
    (ht : q.consume = some { q with
      head := x, consumer := c, results := q.results ++ [some result] }) :
    q.contents = result :: { q with
      head := x, consumer := c, results := q.results ++ [some result] : MPSCQueue α }.contents := by
  cases consume_observes h ht with
  | silent results contents => simp at results
  | enqueues val results contents => simp at results
  | nullopt results contents => simp at results
  | dequeues val results contents =>
    obtain rfl : result = val := by simpa using results
    exact contents

end MPSCQueue

namespace HeapQueue
open MPSCQueue (Producer Consumer)

variable {α : Type}

/-- The constructor; the dummy is at address 0. -/
def init (default : α) : HeapQueue α := ⟨MPSCQueue.init default, {0}⟩

/-- A step of the queue. `addr` is where `new Node` puts the node of a call of `enqueue`. -/
def step (m : HeapQueue α) (a : MPSCQueue.Action α) (addr : ℕ) : Option (HeapQueue α) :=
  match a with
  | .enqueue _ _ =>
    if addr ∈ m.live then none
    else ({ m.queue with allocated := addr }.step a).map fun q => ⟨q, insert addr m.live⟩
  | .consume =>
    (m.queue.step a).map fun q =>
      ⟨q, match m.queue.unlinks a with
        | some head => m.live.erase head
        | none => m.live⟩
  | a => (m.queue.step a).map fun q => ⟨q, m.live⟩

/-- The step does not delete a node that `tail_` or `old_tail` of a producer designates. -/
def SparesInUse (m : HeapQueue α) (a : MPSCQueue.Action α) : Prop :=
  ∀ head ∈ m.queue.unlinks a,
    head ≠ m.queue.tail ∧ ∀ p, (m.queue.producers p).oldTail ≠ some head

/-- `f` gives the nodes of `q` for those at the live addresses. All pointers in use designate live
nodes, and no live node points to that of `head_`. -/
structure Names (f : ℕ → ℕ) (m : HeapQueue α) (q : MPSCQueue α) : Prop where
  inj : ∀ a ∈ m.live, ∀ b ∈ m.live, f a = f b → a = b
  bound : ∀ a ∈ m.live, f a < q.allocated
  data : ∀ a ∈ m.live, q.data (f a) = m.queue.data a
  next : ∀ a ∈ m.live, q.next (f a) = (m.queue.next a).map f
  closed : ∀ a ∈ m.live, ∀ x, m.queue.next a = some x → x ∈ m.live ∧ x ≠ m.queue.head
  listed : ∀ a ∈ m.live, ∀ x, m.queue.next a = some x → f a ∈ q.order
  headLive : m.queue.head ∈ m.live
  head : q.head = f m.queue.head
  tailLive : m.queue.tail ∈ m.live
  tail : q.tail = f m.queue.tail
  producersLive : ∀ p, ∀ a ∈ (m.queue.producers p).nodes, a ∈ m.live
  producers : ∀ p, q.producers p = (m.queue.producers p).map f
  consumerLive : ∀ a ∈ m.queue.consumer.nodes, a ∈ m.live
  consumer : q.consumer = m.queue.consumer.map f

theorem init_names (default : α) : Names id (init default) (MPSCQueue.init default) where
  inj a _ b _ h := h
  bound a ha := by
    rw [Finset.mem_singleton.mp ha]
    exact Nat.one_pos
  data a _ := rfl
  next a _ := rfl
  closed a _ x hx := by cases hx
  listed a _ x hx := by cases hx
  headLive := Finset.mem_singleton_self 0
  head := rfl
  tailLive := Finset.mem_singleton_self 0
  tail := rfl
  producersLive p a ha := by cases ha
  producers p := rfl
  consumerLive a ha := by cases ha
  consumer := rfl

private theorem map_congr_producer {f g : ℕ → ℕ} {pc : Producer} (h : ∀ a ∈ pc.nodes, f a = g a) :
    pc.map f = pc.map g := by
  cases pc with
  | recheck n t next =>
    cases next <;> simp_all [Producer.map, Producer.nodes]
  | _ => simp_all [Producer.map, Producer.nodes]

private theorem map_congr_consumer {f g : ℕ → ℕ} {c : Consumer α} (h : ∀ a ∈ c.nodes, f a = g a) :
    c.map f = c.map g := by
  cases c <;> simp_all [Consumer.map, Consumer.nodes]

theorem unlinked_map (f : ℕ → ℕ) (pc : Producer) : (pc.map f).unlinked = pc.unlinked.map f := by
  cases pc <;> rfl

private theorem oldTail_map (f : ℕ → ℕ) (pc : Producer) :
    (pc.map f).oldTail = pc.oldTail.map f := by
  cases pc <;> rfl

private theorem behind_map (f : ℕ → ℕ) (pc : Producer) : (pc.map f).behind = pc.behind.map f := by
  cases pc <;> rfl

private theorem exists_oldTail_of_behind {pc : Producer} {x : ℕ} (h : pc.behind = some x) :
    ∃ t, pc.oldTail = some t := by
  cases pc with
  | idle => cases h
  | loadTail n => cases h
  | _ => exact ⟨_, rfl⟩

theorem mem_nodes_iff {pc : Producer} {a : ℕ} : a ∈ pc.nodes ↔
    pc.unlinked = some a ∨ pc.oldTail = some a ∨ pc.behind = some a := by
  cases pc with
  | recheck n t next =>
    cases next <;>
      simp [Producer.nodes, Producer.unlinked, Producer.oldTail, Producer.behind, eq_comm]
  | _ =>
    simp [Producer.nodes, Producer.unlinked, Producer.oldTail, Producer.behind, eq_comm, or_comm]

namespace Names

variable {f : ℕ → ℕ} {m : HeapQueue α} {q : MPSCQueue α} (h : Names f m q)
include h

theorem eq_iff {a b : ℕ} (ha : a ∈ m.live) (hb : b ∈ m.live) : f a = f b ↔ a = b :=
  ⟨h.inj a ha b hb, congrArg f⟩

theorem next_eq_none_iff {a : ℕ} (ha : a ∈ m.live) :
    q.next (f a) = none ↔ m.queue.next a = none := by
  rw [h.next a ha, Option.map_eq_none_iff]

theorem goto (p : ℕ) (pc : Producer) (hpc : ∀ a ∈ pc.nodes, a ∈ m.live) :
    Names f ⟨m.queue.goto p pc, m.live⟩ (q.goto p (pc.map f)) := by
  refine { h with producersLive := ?_, producers := ?_ }
  · intro r a ha
    by_cases hr : r = p
    · subst hr
      rw [show (m.queue.goto r pc).producers r = pc from Function.update_self ..] at ha
      exact hpc a ha
    · rw [show (m.queue.goto p pc).producers r = _ from Function.update_of_ne hr ..] at ha
      exact h.producersLive r a ha
  · intro r
    by_cases hr : r = p
    · subst hr
      simp [MPSCQueue.goto]
    · simpa [MPSCQueue.goto, hr] using h.producers r

theorem casTail {t x : ℕ} (ht : t ∈ m.live) (hx : x ∈ m.live) :
    Names f ⟨m.queue.casTail t x, m.live⟩ (q.casTail (f t) (f x)) := by
  refine { h with tailLive := ?_, tail := ?_ }
  · show (if m.queue.tail = t then x else m.queue.tail) ∈ m.live
    split_ifs
    · exact hx
    · exact h.tailLive
  · show (if q.tail = f t then f x else q.tail) = f (if m.queue.tail = t then x else m.queue.tail)
    rw [h.tail, apply_ite f]
    exact if_congr (h.eq_iff h.tailLive ht) rfl rfl

theorem enqueue (p : ℕ) (val : α) {addr : ℕ} (haddr : addr ∉ m.live) :
    Names (Function.update f addr q.allocated)
      ⟨{ m.queue with allocated := addr }.enqueue p val, insert addr m.live⟩ (q.enqueue p val) := by
  have hne : ∀ a ∈ m.live, a ≠ addr := fun a ha heq => haddr (heq ▸ ha)
  have hf : ∀ a ∈ m.live, Function.update f addr q.allocated a = f a :=
    fun a ha => Function.update_of_ne (hne a ha) _ _
  have hfresh : ∀ a ∈ m.live, f a ≠ q.allocated := fun a ha => Nat.ne_of_lt (h.bound a ha)
  constructor
  case inj =>
    intro a ha b hb heq
    rcases Finset.mem_insert.mp ha with ha | ha <;> rcases Finset.mem_insert.mp hb with hb | hb
    · rw [ha, hb]
    · rw [ha, Function.update_self, hf b hb] at heq
      exact absurd heq.symm (hfresh b hb)
    · rw [hb, Function.update_self, hf a ha] at heq
      exact absurd heq (hfresh a ha)
    · rw [hf a ha, hf b hb] at heq
      exact h.inj a ha b hb heq
  case bound =>
    intro a ha
    rcases Finset.mem_insert.mp ha with rfl | ha
    · rw [Function.update_self]
      exact Nat.lt_succ_self _
    · rw [hf a ha]
      exact Nat.lt_succ_of_lt (h.bound a ha)
  case data =>
    intro a ha
    rcases Finset.mem_insert.mp ha with rfl | ha
    · simp [MPSCQueue.enqueue]
    · rw [hf a ha]
      simpa [MPSCQueue.enqueue, hfresh a ha, hne a ha] using h.data a ha
  case next =>
    intro a ha
    rcases Finset.mem_insert.mp ha with rfl | ha
    · simp [MPSCQueue.enqueue]
    · rw [hf a ha]
      simp only [MPSCQueue.enqueue, Function.update_of_ne (hfresh a ha),
        Function.update_of_ne (hne a ha), h.next a ha]
      cases hx : m.queue.next a with
      | none => rfl
      | some x => exact congrArg some (hf x (h.closed a ha x hx).1).symm
  case closed =>
    intro a ha x hx
    rcases Finset.mem_insert.mp ha with rfl | ha
    · simp [MPSCQueue.enqueue] at hx
    · simp only [MPSCQueue.enqueue, Function.update_of_ne (hne a ha)] at hx
      obtain ⟨hlive, hhead⟩ := h.closed a ha x hx
      exact ⟨Finset.mem_insert_of_mem hlive, hhead⟩
  case listed =>
    intro a ha x hx
    rcases Finset.mem_insert.mp ha with rfl | ha
    · simp [MPSCQueue.enqueue] at hx
    · simp only [MPSCQueue.enqueue, Function.update_of_ne (hne a ha)] at hx
      rw [hf a ha]
      exact h.listed a ha x hx
  case headLive =>
    exact Finset.mem_insert_of_mem h.headLive
  case head =>
    exact h.head.trans (hf _ h.headLive).symm
  case tailLive =>
    exact Finset.mem_insert_of_mem h.tailLive
  case tail =>
    exact h.tail.trans (hf _ h.tailLive).symm
  case producersLive =>
    intro r a ha
    by_cases hr : r = p
    · subst hr
      simp only [MPSCQueue.enqueue, Function.update_self, Producer.nodes,
        List.mem_singleton] at ha
      rw [ha]
      exact Finset.mem_insert_self _ _
    · simp only [MPSCQueue.enqueue, Function.update_of_ne hr] at ha
      exact Finset.mem_insert_of_mem (h.producersLive r a ha)
  case producers =>
    intro r
    by_cases hr : r = p
    · subst hr
      simp [MPSCQueue.enqueue, Producer.map]
    · simp only [MPSCQueue.enqueue, Function.update_of_ne hr]
      rw [h.producers r]
      exact map_congr_producer fun a ha => (hf a (h.producersLive r a ha)).symm
  case consumerLive =>
    exact fun a ha => Finset.mem_insert_of_mem (h.consumerLive a ha)
  case consumer =>
    refine h.consumer.trans ?_
    exact map_congr_consumer fun a ha => (hf a (h.consumerLive a ha)).symm

/-- The nodes of `old_tail` and of the caller of `enqueue` get their pointers. -/
theorem link (p : ℕ) {n t : ℕ} (hn : n ∈ m.live) (ht : t ∈ m.live) (hne : n ≠ m.queue.head)
    (hlisted : f t ∈ q.order) :
    Names f ⟨m.queue.link p n t, m.live⟩ (q.link p (f n) (f t)) := by
  refine { h with next := ?_, closed := ?_, listed := ?_, producersLive := ?_, producers := ?_ }
  · intro a ha
    simp only [MPSCQueue.link, Function.update_apply, h.eq_iff ha ht]
    split_ifs
    · rfl
    · exact h.next a ha
  · intro a ha x hx
    simp only [MPSCQueue.link, Function.update_apply] at hx
    split_ifs at hx
    · cases hx
      exact ⟨hn, hne⟩
    · exact h.closed a ha x hx
  · intro a ha x hx
    rw [MPSCQueue.order_link]
    simp only [MPSCQueue.link, Function.update_apply] at hx
    split_ifs at hx with heq
    · rw [heq]
      exact List.mem_append_left _ hlisted
    · exact List.mem_append_left _ (h.listed a ha x hx)
  · intro r a ha
    simp only [MPSCQueue.link, Function.update_apply] at ha
    split_ifs at ha
    · simp only [Producer.nodes, List.mem_cons, List.not_mem_nil, or_false] at ha
      rcases ha with rfl | rfl
      · exact hn
      · exact ht
    · exact h.producersLive r a ha
  · intro r
    simp only [MPSCQueue.link, Function.update_apply]
    split_ifs
    · rfl
    · exact h.producers r

/-- The node of a producer is not yet in the list. -/
theorem unlinked_ne_head (hinv : q.Inv) {p n : ℕ}
    (hn : (m.queue.producers p).unlinked = some n) : n ≠ m.queue.head := by
  have hunlinked : (q.producers p).unlinked = some (f n) := by
    rw [h.producers p, unlinked_map, hn]
    rfl
  intro heq
  apply ((hinv.producers p).unlinked (f n) hunlinked).2.1
  rw [heq, ← h.head]
  exact hinv.head_mem

/-- Nor does the node behind `old_tail` stand at the head of the list. -/
theorem behind_ne_head (hinv : q.Inv) {p x : ℕ} (hx : (m.queue.producers p).behind = some x) :
    x ≠ m.queue.head := by
  obtain ⟨t, ht⟩ := exists_oldTail_of_behind hx
  have htlive : t ∈ m.live := h.producersLive p t (mem_nodes_iff.mpr (.inr (.inl ht)))
  have hxlive : x ∈ m.live := h.producersLive p x (mem_nodes_iff.mpr (.inr (.inr hx)))
  have hnext : q.next (f t) = some (f x) := by
    apply (hinv.producers p).behind
    · rw [h.producers p, oldTail_map, ht]
      rfl
    · rw [h.producers p, behind_map, hx]
      rfl
  rw [h.next t htlive] at hnext
  obtain ⟨y, hy, hfy⟩ := Option.map_eq_some_iff.mp hnext
  obtain ⟨hylive, hyhead⟩ := h.closed t htlive y hy
  rwa [h.inj y hylive x hxlive hfy] at hyhead

theorem produce (hinv : q.Inv) {p : ℕ} {spurious : Bool} {r : MPSCQueue α}
    (hr : m.queue.produce p spurious = some r) :
    ∃ q', q.produce p spurious = some q' ∧ Names f ⟨r, m.live⟩ q' ∧
      q.linksNow p spurious = m.queue.linksNow p spurious := by
  have hlive := h.producersLive p
  have hpc' := h.producers p
  unfold MPSCQueue.produce at hr
  unfold MPSCQueue.produce MPSCQueue.linksNow
  cases hpc : m.queue.producers p with
  | idle =>
    rw [hpc] at hr
    cases hr
  | loadTail n =>
    rw [hpc] at hr hlive hpc'
    rw [hpc']
    cases hr
    refine ⟨_, rfl, ?_, rfl⟩
    rw [h.tail]
    apply h.goto p
    intro a ha
    simp only [Producer.nodes, List.mem_cons, List.not_mem_nil, or_false] at ha
    rcases ha with rfl | rfl
    · exact hlive _ List.mem_cons_self
    · exact h.tailLive
  | loadNext n t =>
    rw [hpc] at hr hlive hpc'
    rw [hpc']
    cases hr
    have ht : t ∈ m.live := hlive t (List.mem_cons_of_mem _ List.mem_cons_self)
    refine ⟨_, rfl, ?_, rfl⟩
    rw [h.next t ht]
    apply h.goto p
    intro a ha
    simp only [Producer.nodes, List.mem_cons, Option.mem_toList] at ha
    rcases ha with rfl | rfl | ha
    · exact hlive _ List.mem_cons_self
    · exact ht
    · exact (h.closed t ht a ha).1
  | recheck n t next =>
    rw [hpc] at hr hlive hpc'
    rw [hpc']
    cases hr
    have ht : t ∈ m.live := hlive t (List.mem_cons_of_mem _ List.mem_cons_self)
    refine ⟨_, rfl, ?_, rfl⟩
    by_cases hsame : t = m.queue.tail
    · have hsame' : f t = q.tail := by rw [hsame, h.tail]
      rw [if_pos hsame, if_pos hsame']
      cases next with
      | none => exact h.goto p _ fun a ha => hlive a (by simpa [Producer.nodes] using ha)
      | some x => exact h.goto p _ fun a ha => hlive a (by simpa [Producer.nodes] using ha)
    · have hsame' : f t ≠ q.tail := by
        rw [h.tail]
        exact fun heq => hsame (h.inj t ht _ h.tailLive heq)
      rw [if_neg hsame, if_neg hsame']
      apply h.goto p
      intro a ha
      rw [List.mem_singleton.mp ha]
      exact hlive n List.mem_cons_self
  | casNext n t =>
    rw [hpc] at hr hlive hpc'
    rw [hpc']
    have hn : n ∈ m.live := hlive n List.mem_cons_self
    have ht : t ∈ m.live := hlive t (List.mem_cons_of_mem _ List.mem_cons_self)
    have hnone := h.next_eq_none_iff ht
    dsimp only [Producer.map] at hr ⊢
    have hnull : (q.next (f t)).isNone = (m.queue.next t).isNone := by
      rw [h.next t ht, Option.isNone_map]
    by_cases hcas : m.queue.next t = none ∧ spurious = false
    · rw [if_pos hcas] at hr
      rw [if_pos ⟨hnone.mpr hcas.1, hcas.2⟩]
      cases hr
      have hhead : n ≠ m.queue.head := h.unlinked_ne_head hinv (by rw [hpc]; rfl)
      have hlisted : f t ∈ q.order := (hinv.producers p).oldTail _ (by rw [hpc']; rfl)
      exact ⟨_, rfl, h.link p hn ht hhead hlisted, by rw [hnull]⟩
    · rw [if_neg hcas] at hr
      rw [if_neg (fun hcas' => hcas ⟨hnone.mp hcas'.1, hcas'.2⟩)]
      cases hr
      refine ⟨_, rfl, h.goto p (.loadTail n) ?_, by rw [hnull]⟩
      intro a ha
      rw [List.mem_singleton.mp ha]
      exact hn
  | swing n t =>
    rw [hpc] at hr hlive hpc'
    rw [hpc']
    cases hr
    have hn : n ∈ m.live := hlive n List.mem_cons_self
    have ht : t ∈ m.live := hlive t (List.mem_cons_of_mem _ List.mem_cons_self)
    refine ⟨_, rfl, ?_, rfl⟩
    exact (h.casTail ht hn).goto p .idle nofun
  | help n t x =>
    rw [hpc] at hr hlive hpc'
    rw [hpc']
    cases hr
    have ht : t ∈ m.live := hlive t (by simp [Producer.nodes])
    have hx : x ∈ m.live := hlive x (by simp [Producer.nodes])
    refine ⟨_, rfl, ?_, rfl⟩
    apply (h.casTail ht hx).goto p (.loadTail n)
    intro a ha
    rw [List.mem_singleton.mp ha]
    exact hlive n List.mem_cons_self

theorem setConsumer (pc : Consumer α) (hpc : ∀ a ∈ pc.nodes, a ∈ m.live)
    (results results' : List (Option α)) :
    Names f ⟨{ m.queue with consumer := pc, results := results }, m.live⟩
      { q with consumer := pc.map f, results := results' } :=
  { h with consumerLive := hpc, consumer := rfl }

/-- Once `head_` has moved, the node it has left is deleted; no pointer in use designates it. -/
theorem storeHead (hinv : q.Inv) {x more : ℕ} {results results' : List (Option α)}
    (hx : m.queue.next m.queue.head = some x) (htail : m.queue.tail ≠ m.queue.head)
    (hold : ∀ p, (m.queue.producers p).oldTail ≠ some m.queue.head) :
    Names f
      ⟨{ m.queue with head := x, consumer := .round more, results := results },
        m.live.erase m.queue.head⟩
      { q with head := f x, consumer := .round more, results := results' } := by
  have hsub : ∀ a ∈ m.live.erase m.queue.head, a ∈ m.live := fun a => Finset.mem_of_mem_erase
  have hxlive := h.closed _ h.headLive x hx
  have hnext : q.next q.head = some (f x) := by
    rw [h.head, h.next _ h.headLive, hx]
    rfl
  have hround : (Consumer.round more : Consumer α).nodes = [] := by cases more <;> rfl
  constructor
  case inj =>
    exact fun a ha b hb => h.inj a (hsub a ha) b (hsub b hb)
  case bound =>
    exact fun a ha => h.bound a (hsub a ha)
  case data =>
    exact fun a ha => h.data a (hsub a ha)
  case next =>
    exact fun a ha => h.next a (hsub a ha)
  case closed =>
    intro a ha y hy
    have hylive := h.closed a (hsub a ha) y hy
    refine ⟨Finset.mem_erase.mpr ⟨hylive.2, hylive.1⟩, ?_⟩
    -- in a linked list only the old head points to the new one
    rintro rfl
    have hfirst : f a = f m.queue.head := by
      apply hinv.linked.next_inj (h.listed a (hsub a ha) _ hy) (h.head ▸ hinv.head_mem)
        (b := f y)
      · rw [h.next a (hsub a ha), hy]
        rfl
      · rw [h.next _ h.headLive, hx]
        rfl
    exact (Finset.mem_erase.mp ha).1 (h.inj a (hsub a ha) _ h.headLive hfirst)
  case listed =>
    exact fun a ha => h.listed a (hsub a ha)
  case headLive =>
    exact Finset.mem_erase.mpr ⟨hxlive.2, hxlive.1⟩
  case head =>
    rfl
  case tailLive =>
    exact Finset.mem_erase.mpr ⟨htail, h.tailLive⟩
  case tail =>
    exact h.tail
  case producersLive =>
    intro p a ha
    refine Finset.mem_erase.mpr ⟨?_, h.producersLive p a ha⟩
    rintro rfl
    rcases mem_nodes_iff.mp ha with hu | ht | hb
    · exact h.unlinked_ne_head hinv hu rfl
    · exact hold p ht
    · exact h.behind_ne_head hinv hb rfl
  case producers =>
    exact h.producers
  case consumerLive =>
    rw [hround]
    exact nofun
  case consumer =>
    cases more <;> rfl

end Names

/-! To its users the queue in memory is a list as well. -/

variable {m : HeapQueue α} {c : List α}

def Holds (m : HeapQueue α) (c : List α) : Prop :=
  ∃ f q, Names f m q ∧ q.Inv ∧ q.contents = c

theorem init_holds (default : α) : (init default).Holds [] :=
  ⟨id, MPSCQueue.init default, init_names default, MPSCQueue.init_inv default, rfl⟩

/-- The accesses of the consumer by name, with what they do to the values. -/
inductive Consumed (m : HeapQueue α) (c : List α) : HeapQueue α → Prop where
  | loadHead (more : ℕ) (hpc : m.queue.consumer = .loadHead more)
      (holds : Holds ⟨{ m.queue with consumer := .loadNext more m.queue.head }, m.live⟩ c) :
      Consumed m c ⟨{ m.queue with consumer := .loadNext more m.queue.head }, m.live⟩
  | nullopt (more head : ℕ) (hpc : m.queue.consumer = .loadNext more head)
      (hnext : m.queue.next head = none) (hnil : c = [])
      (holds : Holds
        ⟨{ m.queue with consumer := .idle, results := m.queue.results ++ [none] }, m.live⟩ c) :
      Consumed m c
        ⟨{ m.queue with consumer := .idle, results := m.queue.results ++ [none] }, m.live⟩
  | loadNext (more head x : ℕ) (hpc : m.queue.consumer = .loadNext more head)
      (hnext : m.queue.next head = some x)
      (holds : Holds
        ⟨{ m.queue with consumer := .storeHead more head x (m.queue.data x) }, m.live⟩ c) :
      Consumed m c ⟨{ m.queue with consumer := .storeHead more head x (m.queue.data x) }, m.live⟩
  | storeHead (more head x : ℕ) (result : α) (rest : List α)
      (hpc : m.queue.consumer = .storeHead more head x result) (hc : c = result :: rest)
      (holds : Holds
        ⟨{ m.queue with
            head := x, consumer := .round more, results := m.queue.results ++ [some result] },
          m.live.erase head⟩ rest) :
      Consumed m c
        ⟨{ m.queue with
            head := x, consumer := .round more, results := m.queue.results ++ [some result] },
          m.live.erase head⟩

theorem exists_consume (h : m.queue.consumer ≠ .idle) (addr : ℕ) :
    ∃ m', m.step .consume addr = some m' := by
  cases hpc : m.queue.consumer with
  | idle => exact absurd hpc h
  | loadNext more head =>
    cases hx : m.queue.next head <;> simp [step, MPSCQueue.step, MPSCQueue.consume, hpc, hx]
  | _ => simp [step, MPSCQueue.step, MPSCQueue.consume, hpc]

namespace Holds

theorem enqueue (h : m.Holds c) {p addr : ℕ} (hp : m.queue.producers p = .idle)
    (haddr : addr ∉ m.live) (val : α) :
    Holds ⟨{ m.queue with allocated := addr }.enqueue p val, insert addr m.live⟩ c := by
  obtain ⟨f, q, hnames, hinv, rfl⟩ := h
  have hidle : q.producers p = .idle := by
    rw [hnames.producers p, hp]
    rfl
  refine ⟨_, _, hnames.enqueue p val haddr, hinv.enqueue hidle val, ?_⟩
  unfold MPSCQueue.contents
  rw [hinv.linkedValues_enqueue]
  rfl

/-- The new node holds the value of its call, and no other node in use is written to. -/
theorem pending_enqueue (h : m.Holds c) {p addr : ℕ} (haddr : addr ∉ m.live) (val : α) (r : ℕ) :
    ({ m.queue with allocated := addr }.enqueue p val).pending r =
      if r = p then some val else m.queue.pending r := by
  obtain ⟨f, q, hnames, -, -⟩ := h
  unfold MPSCQueue.pending
  by_cases hr : r = p
  · subst hr
    simp [MPSCQueue.enqueue, Producer.unlinked]
  · simp only [MPSCQueue.enqueue, Function.update_of_ne hr, if_neg hr]
    cases hn : (m.queue.producers r).unlinked with
    | none => rfl
    | some n =>
      have hlive := hnames.producersLive r n (mem_nodes_iff.mpr (.inl hn))
      have hne : n ≠ addr := fun heq => haddr (heq ▸ hlive)
      exact congrArg some (Function.update_of_ne hne _ _)

/-- A producer's exchange adds its value, its other accesses do not change the values. -/
theorem produce (h : m.Holds c) {p : ℕ} {spurious : Bool} {r : MPSCQueue α}
    (hr : m.queue.produce p spurious = some r) :
    Holds ⟨r, m.live⟩
      (if m.queue.linksNow p spurious then c ++ (m.queue.pending p).toList else c) := by
  obtain ⟨f, q, hnames, hinv, rfl⟩ := h
  obtain ⟨q', hq', hnames', hlinks⟩ := hnames.produce hinv hr
  refine ⟨f, q', hnames', hinv.produce hq', ?_⟩
  have hpending : q.pending p = m.queue.pending p := by
    unfold MPSCQueue.pending
    rw [hnames.producers p, unlinked_map]
    cases hn : (m.queue.producers p).unlinked with
    | none => rfl
    | some n =>
      have hlive := hnames.producersLive p n (mem_nodes_iff.mpr (.inl hn))
      exact congrArg some (hnames.data n hlive)
  rw [← hlinks, ← hpending]
  exact MPSCQueue.contents_produce hinv hq'

theorem dequeueBulk (h : m.Holds c) (hidle : m.queue.consumer = .idle) (maxCount : ℕ) :
    Holds ⟨{ m.queue with consumer := .round maxCount }, m.live⟩ c := by
  obtain ⟨f, q, hnames, hinv, rfl⟩ := h
  have hnodes : (Consumer.round maxCount : Consumer α).nodes = [] := by cases maxCount <;> rfl
  have hidle' : q.consumer = .idle := by
    rw [hnames.consumer, hidle]
    rfl
  have hstep : q.step (.dequeueBulk maxCount) = some { q with consumer := .round maxCount } := by
    simp only [MPSCQueue.step, hidle']
  have hround : (Consumer.round maxCount : Consumer α).map f = .round maxCount := by
    cases maxCount <;> rfl
  have hset := hnames.setConsumer (.round maxCount) (by simp [hnodes]) m.queue.results q.results
  rw [hround] at hset
  exact ⟨f, _, hset, hinv.step hstep, rfl⟩

/-- `empty` tells whether a value is left. -/
theorem isNone_iff (h : m.Holds c) : (m.queue.next m.queue.head).isNone ↔ c = [] := by
  obtain ⟨f, q, hnames, hinv, rfl⟩ := h
  rw [Option.isNone_iff_eq_none, ← hnames.next_eq_none_iff hnames.headLive, ← hnames.head]
  exact hinv.next_head_eq_none_iff

theorem consume (h : m.Holds c) (hspares : m.SparesInUse .consume) {addr : ℕ} {m' : HeapQueue α}
    (hm : m.step .consume addr = some m') : Consumed m c m' := by
  obtain ⟨f, q, hnames, hinv, rfl⟩ := h
  have hlive := hnames.consumerLive
  have hcons := hnames.consumer
  have hknows := hinv.consumer
  cases hpc : m.queue.consumer with
  | idle => simp [HeapQueue.step, MPSCQueue.step, MPSCQueue.consume, hpc] at hm
  | loadHead more =>
    rw [hpc] at hcons
    have hstep : q.consume = some { q with consumer := .loadNext more q.head } := by
      simp [MPSCQueue.consume, hcons, Consumer.map]
    simp only [HeapQueue.step, MPSCQueue.step, MPSCQueue.consume, MPSCQueue.unlinks, hpc,
      Option.map_some, Option.some.injEq] at hm
    subst hm
    have hset := hnames.setConsumer (.loadNext more m.queue.head)
      (by simpa [Consumer.nodes] using hnames.headLive) m.queue.results q.results
    rw [Consumer.map, ← hnames.head] at hset
    exact .loadHead more hpc ⟨f, _, hset, hinv.consume hstep, rfl⟩
  | loadNext more head =>
    rw [hpc] at hcons hlive
    rw [hcons] at hknows
    have hhead : head ∈ m.live := hlive head List.mem_cons_self
    have hnext := hnames.next head hhead
    cases hx : m.queue.next head with
    | none =>
      rw [hx, Option.map_none] at hnext
      have hstep : q.consume =
          some { q with consumer := .idle, results := q.results ++ [none] } := by
        simp [MPSCQueue.consume, hcons, Consumer.map, hnext]
      have hnil : q.contents = [] := by
        rw [← hinv.next_head_eq_none_iff, ← show f head = q.head from hknows]
        exact hnext
      simp only [HeapQueue.step, MPSCQueue.step, MPSCQueue.consume, MPSCQueue.unlinks, hpc, hx,
        Option.map_some, Option.some.injEq] at hm
      subst hm
      have hset := hnames.setConsumer .idle (by simp [Consumer.nodes])
        (m.queue.results ++ [none]) (q.results ++ [none])
      refine .nullopt more head hpc hx hnil ⟨f, _, hset, hinv.consume hstep, ?_⟩
      simp [MPSCQueue.contents, MPSCQueue.dequeued, MPSCQueue.linkedValues]
    | some x =>
      rw [hx, Option.map_some] at hnext
      have hxlive := (hnames.closed head hhead x hx).1
      have hstep : q.consume =
          some { q with consumer := .storeHead more (f head) (f x) (m.queue.data x) } := by
        simp [MPSCQueue.consume, hcons, Consumer.map, hnext, hnames.data x hxlive]
      simp only [HeapQueue.step, MPSCQueue.step, MPSCQueue.consume, MPSCQueue.unlinks, hpc, hx,
        Option.map_some, Option.some.injEq] at hm
      subst hm
      have hset := hnames.setConsumer (.storeHead more head x (m.queue.data x))
        (by simpa [Consumer.nodes] using ⟨hhead, hxlive⟩) m.queue.results q.results
      exact .loadNext more head x hpc hx ⟨f, _, hset, hinv.consume hstep, rfl⟩
  | storeHead more head x result =>
    rw [hpc] at hcons hlive
    rw [hcons] at hknows
    obtain ⟨hhead, hnext, -⟩ := hknows
    -- the consumer's locals are up to date
    obtain rfl : head = m.queue.head := by
      apply hnames.inj _ (hlive head List.mem_cons_self) _ hnames.headLive
      rw [hhead, hnames.head]
    have hxlive : x ∈ m.live := hlive x (List.mem_cons_of_mem _ List.mem_cons_self)
    have hx : m.queue.next m.queue.head = some x := by
      rw [hnames.next _ hnames.headLive] at hnext
      obtain ⟨y, hy, hfy⟩ := Option.map_eq_some_iff.mp hnext
      have hylive := (hnames.closed _ hnames.headLive y hy).1
      rwa [hnames.inj y hylive x hxlive hfy] at hy
    have hstep : q.consume = some { q with
        head := f x, consumer := .round more, results := q.results ++ [some result] } := by
      simp [MPSCQueue.consume, hcons, Consumer.map]
    obtain ⟨htail, hold⟩ := hspares m.queue.head (by simp [MPSCQueue.unlinks, hpc])
    simp only [HeapQueue.step, MPSCQueue.step, MPSCQueue.consume, MPSCQueue.unlinks, hpc,
      Option.map_some, Option.some.injEq] at hm
    subst hm
    exact .storeHead more m.queue.head x result _ hpc (MPSCQueue.contents_storeHead hinv hstep)
      ⟨f, _, hnames.storeHead hinv hx htail.symm hold, hinv.consume hstep, rfl⟩

end Holds
end HeapQueue
end TermChat
