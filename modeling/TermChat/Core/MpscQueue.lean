import TermChat.Base.Steps
import TermChat.Base.Linked
import TermChat.Base.Threads

/-! `MPSCQueue`, one atomic access to memory at a time. Any number of producers are inside
`enqueue`, one thread takes values out. The nodes are numbered as they are allocated, and none is
used again after its deletion. -/
namespace TermChat

namespace MPSCQueue

/-- Where a producer stands in `enqueue`: the access that it makes next, with its locals. -/
inductive Producer where
  | idle
  | loadTail (newNode : ℕ)
  | loadNext (newNode oldTail : ℕ)
  | recheck (newNode oldTail : ℕ) (next : Option ℕ)
  | casNext (newNode oldTail : ℕ)
  | swing (newNode oldTail : ℕ)
  | help (newNode oldTail next : ℕ)
  deriving DecidableEq

/-- Where the consumer stands in `dequeue`. `more` is how many values `dequeue_bulk` wants after
this one. -/
inductive Consumer (α : Type) where
  | idle
  | loadHead (more : ℕ)
  | loadNext (more head : ℕ)
  | storeHead (more head next : ℕ) (result : α)
  deriving DecidableEq

/-- A successful exchange on a `next` pointer. -/
structure Link where
  producer : ℕ
  node : ℕ
  deriving DecidableEq

end MPSCQueue

/-- Node `a` consists of `data a` and `next a`. `links`, `calls` and `results` record the links,
the arguments of each producer's calls and what the calls of `dequeue` returned. -/
structure MPSCQueue (α : Type) where
  data : ℕ → α
  next : ℕ → Option ℕ
  allocated : ℕ
  head : ℕ
  tail : ℕ
  producers : ℕ → MPSCQueue.Producer
  consumer : MPSCQueue.Consumer α
  links : List MPSCQueue.Link
  calls : ℕ → List α
  results : List (Option α)

namespace MPSCQueue

variable {α : Type}

namespace Producer

/-- The node that the producer has allocated and not linked. -/
def unlinked : Producer → Option ℕ
  | .loadTail n | .loadNext n _ | .recheck n _ _ | .casNext n _ | .help n _ _ => some n
  | .idle | .swing _ _ => none

def oldTail : Producer → Option ℕ
  | .loadNext _ t | .recheck _ t _ | .casNext _ t | .swing _ t | .help _ t _ => some t
  | .idle | .loadTail _ => none

/-- The node behind `old_tail`, as far as the producer knows one. -/
def behind : Producer → Option ℕ
  | .recheck _ _ next => next
  | .help _ _ next => some next
  | .swing n _ => some n
  | _ => none

end Producer

/-- The loop of `dequeue_bulk` when it still wants `n` values; a call of `dequeue` is one round. -/
def Consumer.round : ℕ → Consumer α
  | 0 => .idle
  | n + 1 => .loadHead n

def init (default : α) : MPSCQueue α :=
  { data := fun _ => default
    next := fun _ => none
    allocated := 1
    head := 0
    tail := 0
    producers := fun _ => .idle
    consumer := .idle
    links := []
    calls := fun _ => []
    results := [] }

inductive Action (α : Type) where
  | enqueue (p : ℕ) (val : α)
  | produce (p : ℕ) (spurious : Bool)
  | dequeueBulk (maxCount : ℕ)
  | consume

def goto (q : MPSCQueue α) (p : ℕ) (pc : Producer) : MPSCQueue α :=
  { q with producers := Function.update q.producers p pc }

def enqueue (q : MPSCQueue α) (p : ℕ) (val : α) : MPSCQueue α :=
  { q with
    data := Function.update q.data q.allocated val
    next := Function.update q.next q.allocated none
    allocated := q.allocated + 1
    calls := Function.update q.calls p (q.calls p ++ [val])
    producers := Function.update q.producers p (.loadTail q.allocated) }

/-- `old_tail->next` goes from null to the new node. -/
def link (q : MPSCQueue α) (p newNode oldTail : ℕ) : MPSCQueue α :=
  { q with
    next := Function.update q.next oldTail (some newNode)
    links := q.links ++ [⟨p, newNode⟩]
    producers := Function.update q.producers p (.swing newNode oldTail) }

def casTail (q : MPSCQueue α) (expected desired : ℕ) : MPSCQueue α :=
  { q with tail := if q.tail = expected then desired else q.tail }

/-- The next access of producer `p`. The weak exchange may fail without a reason. -/
def produce (q : MPSCQueue α) (p : ℕ) (spurious : Bool) : Option (MPSCQueue α) :=
  match q.producers p with
  | .idle => none
  | .loadTail n => some (q.goto p (.loadNext n q.tail))
  | .loadNext n t => some (q.goto p (.recheck n t (q.next t)))
  | .recheck n t next =>
    some (q.goto p (if t = q.tail then
      match next with
      | none => .casNext n t
      | some x => .help n t x
    else .loadTail n))
  | .casNext n t =>
    if q.next t = none ∧ spurious = false then some (q.link p n t)
    else some (q.goto p (.loadTail n))
  | .swing n t => some ((q.casTail t n).goto p .idle)
  | .help n t x => some ((q.casTail t x).goto p (.loadTail n))

/-- The next access of the consumer. The value is read with the pointer to its node, since
nobody writes to it any more. -/
def consume (q : MPSCQueue α) : Option (MPSCQueue α) :=
  match q.consumer with
  | .idle => none
  | .loadHead more => some { q with consumer := .loadNext more q.head }
  | .loadNext more head =>
    match q.next head with
    | none => some { q with consumer := .idle, results := q.results ++ [none] }
    | some x => some { q with consumer := .storeHead more head x (q.data x) }
  | .storeHead more _ x result =>
    some { q with head := x, consumer := .round more, results := q.results ++ [some result] }

def step (q : MPSCQueue α) : Action α → Option (MPSCQueue α)
  | .enqueue p val => if q.producers p = .idle then some (q.enqueue p val) else none
  | .produce p spurious => q.produce p spurious
  | .dequeueBulk maxCount =>
    match q.consumer with
    | .idle => some { q with consumer := .round maxCount }
    | _ => none
  | .consume => q.consume

/-- The nodes in link order, the dummy first. -/
def order (q : MPSCQueue α) : List ℕ := 0 :: q.links.map Link.node

def linkedValues (q : MPSCQueue α) : List α := q.links.map fun l => q.data l.node

def linkedBy (q : MPSCQueue α) (p : ℕ) : List α :=
  (q.links.filter fun l => l.producer = p).map fun l => q.data l.node

def pending (q : MPSCQueue α) (p : ℕ) : Option α := (q.producers p).unlinked.map q.data

def dequeued (q : MPSCQueue α) : List α := q.results.filterMap id

/-- What a producer knows: its node is still its own, it has seen `old_tail` in the list, and
the node behind `old_tail` is the one it has seen there. -/
structure Knows (q : MPSCQueue α) (pc : Producer) : Prop where
  unlinked : ∀ n, pc.unlinked = some n → n < q.allocated ∧ n ∉ q.order ∧ q.next n = none
  oldTail : ∀ t, pc.oldTail = some t → t ∈ q.order
  behind : ∀ t x, pc.oldTail = some t → pc.behind = some x → q.next t = some x

/-- What the consumer knows. Only its own store changes `head_`. -/
def ConsumerKnows (q : MPSCQueue α) : Consumer α → Prop
  | .loadNext _ head => head = q.head
  | .storeHead _ head x result => head = q.head ∧ q.next head = some x ∧ result = q.data x
  | .idle | .loadHead _ => True

/-- The nodes form a linked list, the consumer stands at the node of the last value it took, and
each producer has linked the values of its calls, up to the last one. -/
structure Inv (q : MPSCQueue α) : Prop where
  linked : Memory.Linked q.next q.order
  allocated : ∀ a ∈ q.order, a < q.allocated
  tail : q.tail ∈ q.order
  head : q.order[q.dequeued.length]? = some q.head
  dequeued : q.dequeued <+: q.linkedValues
  producers : ∀ p, q.Knows (q.producers p)
  distinct : ∀ p p' n, (q.producers p).unlinked = some n → (q.producers p').unlinked = some n →
    p = p'
  consumer : q.ConsumerKnows q.consumer
  program : ∀ p, q.linkedBy p ++ (q.pending p).toList = q.calls p

/-- The accesses of the consumer by name, with what it knows at each. -/
inductive Consumes (q : MPSCQueue α) : MPSCQueue α → Prop where
  | loadHead (more : ℕ) (hpc : q.consumer = .loadHead more) :
      Consumes q { q with consumer := .loadNext more q.head }
  | nullopt (more : ℕ) (hpc : q.consumer = .loadNext more q.head) (hnext : q.next q.head = none) :
      Consumes q { q with consumer := .idle, results := q.results ++ [none] }
  | loadNext (more x : ℕ) (hpc : q.consumer = .loadNext more q.head)
      (hnext : q.next q.head = some x) :
      Consumes q { q with consumer := .storeHead more q.head x (q.data x) }
  | storeHead (more x : ℕ) (hpc : q.consumer = .storeHead more q.head x (q.data x))
      (hnext : q.next q.head = some x) :
      Consumes q
        { q with head := x, consumer := .round more, results := q.results ++ [some (q.data x)] }

variable {q t : MPSCQueue α}

theorem knows_idle : q.Knows .idle where
  unlinked n hn := by cases hn
  oldTail t ht := by cases ht
  behind t x ht := by cases ht

theorem knows_loadTail {n : ℕ} (hn : n < q.allocated ∧ n ∉ q.order ∧ q.next n = none) :
    q.Knows (.loadTail n) where
  unlinked m hm := by
    cases hm
    exact hn
  oldTail t ht := by cases ht
  behind t x ht := by cases ht

theorem init_inv (default : α) : (init default).Inv where
  linked := by
    constructor
    · exact List.nodup_singleton 0
    · intro i a ha
      exact (List.getElem?_eq_none (by simp [order, init])).symm
  allocated a ha := by
    rw [List.mem_singleton.mp ha]
    exact Nat.one_pos
  tail := List.mem_singleton_self 0
  head := rfl
  dequeued := List.prefix_refl _
  producers p := knows_idle
  distinct p p' n h := by cases h
  consumer := trivial
  program p := rfl

private theorem linkedValues_getElem? (q : MPSCQueue α) (i : ℕ) :
    q.linkedValues[i]? = (q.order[i + 1]?).map q.data := by
  simp only [linkedValues, order, List.getElem?_map, List.getElem?_cons_succ, Option.map_map]
  rfl

/-- A value written to a node outside the list is none of the linked ones. -/
theorem map_data_update {links : List Link} {a : ℕ} (data : ℕ → α) (val : α)
    (h : ∀ l ∈ links, l.node ≠ a) :
    (links.map fun l => Function.update data a val l.node) = links.map fun l => data l.node := by
  apply List.map_congr_left
  intro l hl
  exact Function.update_of_ne (h l hl) val data

theorem mem_order_of_link {l : Link} (h : l ∈ q.links) : l.node ∈ q.order :=
  List.mem_cons_of_mem 0 (List.mem_map_of_mem h)

/-- What no producer takes back: the list, its pointers and its values. -/
structure Preserves (q t : MPSCQueue α) : Prop where
  allocated : q.allocated ≤ t.allocated
  order : ∀ a ∈ q.order, a ∈ t.order
  next : ∀ a ∈ q.order, ∀ x, q.next a = some x → t.next a = some x
  data : ∀ a ∈ q.order, t.data a = q.data a
  head : t.head = q.head

theorem Knows.mono {pc : Producer} (hk : q.Knows pc) (hp : q.Preserves t)
    (hown : ∀ n, pc.unlinked = some n → n ∉ t.order ∧ t.next n = none) : t.Knows pc where
  unlinked n hn := ⟨Nat.lt_of_lt_of_le (hk.unlinked n hn).1 hp.allocated, hown n hn⟩
  oldTail a ha := hp.order a (hk.oldTail a ha)
  behind a x ha hx := hp.next a (hk.oldTail a ha) x (hk.behind a x ha hx)

theorem order_link (q : MPSCQueue α) (p n a : ℕ) : (q.link p n a).order = q.order ++ [n] := by
  simp [order, MPSCQueue.link]

theorem linkedValues_link (q : MPSCQueue α) (p n a : ℕ) :
    (q.link p n a).linkedValues = q.linkedValues ++ [q.data n] := by
  simp [linkedValues, MPSCQueue.link]

/-- A pointer that is set stays. -/
theorem preserves_link {a : ℕ} (hnone : q.next a = none) (p n : ℕ) :
    q.Preserves (q.link p n a) where
  allocated := Nat.le_refl _
  order b hb := by
    rw [order_link]
    exact List.mem_append_left [n] hb
  next b _ x hx := by
    have hba : b ≠ a := by
      rintro rfl
      exact Option.some_ne_none x (hx.symm.trans hnone)
    exact (Function.update_of_ne hba _ _).trans hx
  data b _ := rfl
  head := rfl

namespace Inv

variable (h : q.Inv)
include h

theorem goto {p : ℕ} {pc : Producer} (hu : pc.unlinked = (q.producers p).unlinked)
    (hk : q.Knows pc) : (q.goto p pc).Inv := by
  have hunlinked : ∀ r, ((q.goto p pc).producers r).unlinked = (q.producers r).unlinked := by
    intro r
    by_cases hr : r = p
    · subst hr
      simpa [MPSCQueue.goto] using hu
    · simp [MPSCQueue.goto, hr]
  refine { h with producers := ?_, distinct := ?_, program := ?_ }
  · intro r
    show (q.goto p pc).Knows (Function.update q.producers p pc r)
    by_cases hr : r = p
    · subst hr
      rw [Function.update_self]
      exact { hk with }
    · rw [Function.update_of_ne hr]
      exact { h.producers r with }
  · intro r r' n hr hr'
    rw [hunlinked] at hr hr'
    exact h.distinct r r' n hr hr'
  · intro r
    have hpending : (q.goto p pc).pending r = q.pending r := by
      unfold pending
      rw [hunlinked]
      rfl
    rw [hpending]
    exact h.program r

theorem setTail {a : ℕ} (ha : a ∈ q.order) : { q with tail := a }.Inv :=
  { h with tail := ha, producers := fun p => { h.producers p with } }

theorem casTail {a b : ℕ} (ha : a ∈ q.order) (hb : q.next a = some b) : (q.casTail a b).Inv := by
  apply h.setTail
  split_ifs
  · exact h.linked.mem_of_next ha hb
  · exact h.tail

theorem head_mem : q.head ∈ q.order := List.mem_of_getElem? h.head

theorem consumerKnows_mono (hp : q.Preserves t) : t.ConsumerKnows q.consumer := by
  have hc := h.consumer
  cases hcons : q.consumer with
  | idle => trivial
  | loadHead more => trivial
  | loadNext more head =>
    rw [hcons] at hc
    exact hc.trans hp.head.symm
  | storeHead more head x result =>
    rw [hcons] at hc
    obtain ⟨rfl, hx, rfl⟩ := hc
    have hmem : x ∈ q.order := h.linked.mem_of_next h.head_mem hx
    exact ⟨hp.head.symm, hp.next _ h.head_mem x hx, (hp.data x hmem).symm⟩

theorem ne_allocated {a : ℕ} (ha : a ∈ q.order) : a ≠ q.allocated :=
  Nat.ne_of_lt (h.allocated a ha)

theorem preserves_enqueue (p : ℕ) (val : α) : q.Preserves (q.enqueue p val) where
  allocated := Nat.le_succ _
  order _ ha := ha
  next _ ha _ hx := (Function.update_of_ne (h.ne_allocated ha) _ _).trans hx
  data _ ha := Function.update_of_ne (h.ne_allocated ha) _ _
  head := rfl

theorem linkedValues_enqueue (p : ℕ) (val : α) :
    (q.enqueue p val).linkedValues = q.linkedValues :=
  map_data_update _ _ fun _ hl => h.ne_allocated (mem_order_of_link hl)

theorem program_enqueue {p : ℕ} (hp : q.producers p = .idle) (val : α) (r : ℕ) :
    (q.enqueue p val).linkedBy r ++ ((q.enqueue p val).pending r).toList =
      (q.enqueue p val).calls r := by
  have hprog := h.program r
  have hby : (q.enqueue p val).linkedBy r = q.linkedBy r :=
    map_data_update _ _ fun _ hl => h.ne_allocated (mem_order_of_link (List.mem_of_mem_filter hl))
  rw [hby]
  by_cases hr : r = p
  · subst hr
    have hnone : q.pending r = none := by
      unfold pending
      rw [hp]
      rfl
    rw [hnone, Option.toList_none, List.append_nil] at hprog
    simp [MPSCQueue.enqueue, pending, Producer.unlinked, hprog]
  · have hpending : (q.enqueue p val).pending r = q.pending r := by
      simp only [pending, MPSCQueue.enqueue, Function.update_of_ne hr]
      cases hn : (q.producers r).unlinked with
      | none => rfl
      | some n =>
        have hne : n ≠ q.allocated := Nat.ne_of_lt ((h.producers r).unlinked n hn).1
        exact congrArg some (Function.update_of_ne hne _ _)
    rw [hpending]
    simpa [MPSCQueue.enqueue, hr] using hprog

theorem enqueue {p : ℕ} (hp : q.producers p = .idle) (val : α) : (q.enqueue p val).Inv := by
  have hpres := h.preserves_enqueue p val
  -- the nodes in the hands of the other producers are older
  have hold : ∀ r n, (q.producers r).unlinked = some n → n ≠ q.allocated :=
    fun r n hn => Nat.ne_of_lt ((h.producers r).unlinked n hn).1
  constructor
  · constructor
    · exact h.linked.nodup
    · intro i a ha
      have hne := h.ne_allocated (List.mem_of_getElem? ha)
      exact (Function.update_of_ne hne _ _).trans (h.linked.next_eq ha)
  · exact fun a ha => Nat.lt_succ_of_lt (h.allocated a ha)
  · exact h.tail
  · exact h.head
  · rw [h.linkedValues_enqueue]
    exact h.dequeued
  · intro r
    show (q.enqueue p val).Knows (Function.update q.producers p _ r)
    by_cases hr : r = p
    · subst hr
      rw [Function.update_self]
      apply knows_loadTail
      exact ⟨Nat.lt_succ_self _, fun ha => h.ne_allocated ha rfl, Function.update_self ..⟩
    · rw [Function.update_of_ne hr]
      apply (h.producers r).mono hpres
      intro n hn
      obtain ⟨-, hmem, hnone⟩ := (h.producers r).unlinked n hn
      exact ⟨hmem, (Function.update_of_ne (hold r n hn) _ _).trans hnone⟩
  · intro r r' n hr hr'
    simp only [MPSCQueue.enqueue, Function.update_apply] at hr hr'
    split_ifs at hr hr' with hrp hrp' hrp'
    · rw [hrp, hrp']
    · cases hr
      exact absurd rfl (hold r' _ hr')
    · cases hr'
      exact absurd rfl (hold r _ hr)
    · exact h.distinct r r' n hr hr'
  · exact h.consumerKnows_mono hpres
  · exact h.program_enqueue hp val

theorem program_link {p n a : ℕ} (hp : q.producers p = .casNext n a) (r : ℕ) :
    (q.link p n a).linkedBy r ++ ((q.link p n a).pending r).toList = (q.link p n a).calls r := by
  have hprog := h.program r
  by_cases hr : r = p
  · subst hr
    have hpending : q.pending r = some (q.data n) := by
      unfold pending
      rw [hp]
      rfl
    rw [hpending] at hprog
    simpa [linkedBy, pending, MPSCQueue.link, Producer.unlinked] using hprog
  · simpa [linkedBy, pending, MPSCQueue.link, hr, Ne.symm hr] using hprog

/-- The producer that links knows the node behind the old tail; the others' nodes stay out of the
list. -/
theorem knows_link {p n a : ℕ} (hp : q.producers p = .casNext n a) (hnone : q.next a = none)
    (ha : a ∈ q.order) (r : ℕ) : (q.link p n a).Knows ((q.link p n a).producers r) := by
  have hpres := preserves_link hnone p n
  show (q.link p n a).Knows (Function.update q.producers p _ r)
  by_cases hr : r = p
  · subst hr
    rw [Function.update_self]
    constructor
    · intro m hm
      cases hm
    · intro t ht
      cases ht
      exact hpres.order a ha
    · intro t x ht hx
      cases ht
      cases hx
      exact Function.update_self ..
  · rw [Function.update_of_ne hr]
    apply (h.producers r).mono hpres
    intro m hm
    obtain ⟨-, hmemm, hnonem⟩ := (h.producers r).unlinked m hm
    have hmn : m ≠ n := by
      rintro rfl
      exact hr (h.distinct r p m hm (by rw [hp]; rfl))
    have hma : m ≠ a := fun heq => hmemm (heq ▸ ha)
    have hunlinked : m ∉ (q.link p n a).order := by
      rw [order_link, List.mem_append, List.mem_singleton]
      exact not_or.mpr ⟨hmemm, hmn⟩
    exact ⟨hunlinked, (Function.update_of_ne hma _ _).trans hnonem⟩

theorem link {p n a : ℕ} (hp : q.producers p = .casNext n a) (hnone : q.next a = none) :
    (q.link p n a).Inv := by
  have hkp := h.producers p
  rw [hp] at hkp
  obtain ⟨hlt, hmem, hnn⟩ := hkp.unlinked n rfl
  have ha : a ∈ q.order := hkp.oldTail a rfl
  have hpres := preserves_link hnone p n
  constructor
  · rw [order_link]
    exact h.linked.link ha hnone hmem hnn
  · rw [order_link]
    intro b hb
    rcases List.mem_append.mp hb with hb | hb
    · exact h.allocated b hb
    · rw [List.mem_singleton.mp hb]
      exact hlt
  · exact hpres.order _ h.tail
  · rw [order_link]
    exact Threads.getElem?_append_of_some h.head [n]
  · rw [linkedValues_link]
    exact h.dequeued.trans (List.prefix_append _ _)
  · exact h.knows_link hp hnone ha
  · intro r r' m hr hr'
    simp only [MPSCQueue.link, Function.update_apply] at hr hr'
    split_ifs at hr hr'
    · cases hr
    · cases hr
    · cases hr'
    · exact h.distinct r r' m hr hr'
  · exact h.consumerKnows_mono hpres
  · exact h.program_link hp

theorem produce {p : ℕ} {spurious : Bool} (ht : q.produce p spurious = some t) : t.Inv := by
  have hk := h.producers p
  unfold MPSCQueue.produce at ht
  cases hpc : q.producers p with
  | idle =>
    rw [hpc] at ht
    cases ht
  | loadTail n =>
    rw [hpc] at ht hk
    cases ht
    apply h.goto (by rw [hpc]; rfl)
    constructor
    · exact hk.unlinked
    · intro t ht
      cases ht
      exact h.tail
    · intro t x _ hx
      cases hx
  | loadNext n a =>
    rw [hpc] at ht hk
    cases ht
    apply h.goto (by rw [hpc]; rfl)
    refine ⟨hk.unlinked, hk.oldTail, ?_⟩
    intro t x ht hx
    cases ht
    exact hx
  | recheck n a next =>
    rw [hpc] at ht hk
    cases ht
    split_ifs
    · cases next with
      | none =>
        apply h.goto (by rw [hpc]; rfl)
        exact ⟨hk.unlinked, hk.oldTail, fun t x _ hx => by cases hx⟩
      | some x =>
        apply h.goto (by rw [hpc]; rfl)
        exact ⟨hk.unlinked, hk.oldTail, hk.behind⟩
    · apply h.goto (by rw [hpc]; rfl)
      exact knows_loadTail (hk.unlinked n rfl)
  | casNext n a =>
    rw [hpc] at ht hk
    dsimp only at ht
    split_ifs at ht with hcas
    · cases ht
      exact h.link hpc hcas.1
    · cases ht
      apply h.goto (by rw [hpc]; rfl)
      exact knows_loadTail (hk.unlinked n rfl)
  | swing n a =>
    rw [hpc] at ht hk
    cases ht
    apply (h.casTail (hk.oldTail a rfl) (hk.behind a n rfl rfl)).goto
    · show _ = (q.producers p).unlinked
      rw [hpc]
      rfl
    · exact knows_idle
  | help n a x =>
    rw [hpc] at ht hk
    cases ht
    apply (h.casTail (hk.oldTail a rfl) (hk.behind a x rfl rfl)).goto
    · show _ = (q.producers p).unlinked
      rw [hpc]
      rfl
    · exact knows_loadTail (hk.unlinked n rfl)

/-- The node behind `head_` holds the value that follows those taken. -/
theorem dequeued_append {x : ℕ} (hx : q.next q.head = some x) :
    q.dequeued ++ [q.data x] <+: q.linkedValues := by
  have hvalue : q.linkedValues[q.dequeued.length]? = some (q.data x) := by
    rw [linkedValues_getElem?, h.linked.getElem?_succ h.head hx]
    rfl
  obtain ⟨rest, hrest⟩ := h.dequeued
  rw [← hrest, List.getElem?_append_right (Nat.le_refl _), Nat.sub_self] at hvalue
  cases rest with
  | nil => cases hvalue
  | cons y rest =>
    rw [List.getElem?_cons_zero, Option.some.injEq] at hvalue
    subst hvalue
    exact ⟨rest, by rw [← hrest, List.append_assoc, List.singleton_append]⟩

/-- The consumer finds no node behind `head_` when every linked value has been taken. -/
theorem dequeued_eq (hx : q.next q.head = none) : q.dequeued = q.linkedValues := by
  apply h.dequeued.eq_of_length
  have hlen := h.linked.length_eq h.head hx
  simp only [order, List.length_cons, List.length_map] at hlen
  simp only [linkedValues, List.length_map]
  omega

/-- `dequeue` returns, with `head_` at the node of the last value taken. -/
theorem returns {res : Option α} {a k : ℕ}
    (ha : q.order[(q.dequeued ++ res.toList).length]? = some a)
    (hpre : q.dequeued ++ res.toList <+: q.linkedValues) :
    { q with head := a, consumer := .round k, results := q.results ++ [res] }.Inv := by
  have heq : (q.results ++ [res]).filterMap id = q.dequeued ++ res.toList := by
    cases res <;> simp [MPSCQueue.dequeued]
  refine { h with
    producers := fun p => { h.producers p with }
    head := (congrArg (fun l : List α => q.order[l.length]?) heq).trans ha
    dequeued := ?_
    consumer := ?_ }
  · exact (congrArg (· <+: q.linkedValues) heq).mpr hpre
  · cases k <;> trivial

theorem consumes (ht : q.consume = some t) : Consumes q t := by
  have hc := h.consumer
  unfold MPSCQueue.consume at ht
  cases hcons : q.consumer with
  | idle =>
    rw [hcons] at ht
    cases ht
  | loadHead more =>
    rw [hcons] at ht
    cases ht
    exact .loadHead more hcons
  | loadNext more head =>
    rw [hcons] at ht hc
    obtain rfl : head = q.head := hc
    dsimp only at ht
    cases hx : q.next q.head with
    | none =>
      rw [hx] at ht
      cases ht
      exact .nullopt more hcons hx
    | some x =>
      rw [hx] at ht
      cases ht
      exact .loadNext more x hcons hx
  | storeHead more head x result =>
    rw [hcons] at ht hc
    obtain ⟨rfl, hx, rfl⟩ := hc
    cases ht
    exact .storeHead more x hcons hx

theorem consume (ht : q.consume = some t) : t.Inv := by
  cases h.consumes ht with
  | loadHead more hpc =>
    exact { h with producers := fun p => { h.producers p with }, consumer := rfl }
  | nullopt more hpc hnext =>
    apply h.returns (k := 0)
    · rw [Option.toList_none, List.append_nil]
      exact h.head
    · rw [Option.toList_none, List.append_nil]
      exact h.dequeued
  | loadNext more x hpc hnext =>
    exact { h with producers := fun p => { h.producers p with }, consumer := ⟨rfl, hnext, rfl⟩ }
  | storeHead more x hpc hnext =>
    apply h.returns
    · rw [Option.toList_some, List.length_append, List.length_singleton]
      exact h.linked.getElem?_succ h.head hnext
    · exact h.dequeued_append hnext

theorem step {a : Action α} (ht : q.step a = some t) : t.Inv := by
  cases a with
  | enqueue p val =>
    unfold MPSCQueue.step at ht
    dsimp only at ht
    split_ifs at ht with hp
    cases ht
    exact h.enqueue hp val
  | produce p spurious => exact h.produce ht
  | dequeueBulk maxCount =>
    unfold MPSCQueue.step at ht
    cases hcons : q.consumer with
    | idle =>
      simp only [hcons] at ht
      cases ht
      have hround : q.ConsumerKnows (.round maxCount) := by cases maxCount <;> trivial
      exact { h with producers := fun p => { h.producers p with }, consumer := hround }
    | _ =>
      simp only [hcons] at ht
      cases ht
  | consume => exact h.consume ht

theorem linkedBy_isPrefix (p : ℕ) : q.linkedBy p <+: q.calls p := by
  rw [← h.program p]
  exact List.prefix_append _ _

theorem linkedBy_of_idle {p : ℕ} (hp : q.producers p = .idle) : q.linkedBy p = q.calls p := by
  have hprog := h.program p
  rw [pending, hp] at hprog
  simpa [Producer.unlinked] using hprog

end Inv

/-- The values that are linked and not dequeued: the queue as its users see it. -/
def contents (q : MPSCQueue α) : List α := q.linkedValues.drop q.dequeued.length

/-- What a step does to the queue as its users see it: nothing, a value more at the end, a
`nullopt` from an empty queue, or the first value taken out. -/
inductive Observes (q t : MPSCQueue α) : Prop where
  | silent (results : t.results = q.results) (contents : t.contents = q.contents)
  | enqueues (val : α) (results : t.results = q.results) (contents : t.contents = q.contents ++ [val])
  | nullopt (results : t.results = q.results ++ [none]) (contents : q.contents = [])
  | dequeues (val : α) (results : t.results = q.results ++ [some val])
      (contents : q.contents = val :: t.contents)

/-- The queue is empty exactly if the consumer would find no node behind `head_`. -/
theorem Inv.next_head_eq_none_iff (h : q.Inv) : q.next q.head = none ↔ q.contents = [] := by
  constructor
  · intro hnone
    unfold contents
    rw [h.dequeued_eq hnone, List.drop_length]
  · intro hnil
    cases hx : q.next q.head with
    | none => rfl
    | some x =>
      have hlen := (h.dequeued_append hx).length_le
      rw [List.length_append, List.length_singleton] at hlen
      have hle := List.drop_eq_nil_iff.mp hnil
      omega

theorem produce_observes (h : q.Inv) {p : ℕ} {spurious : Bool}
    (ht : q.produce p spurious = some t) : Observes q t := by
  unfold produce at ht
  split at ht
  case h_1 => cases ht
  case h_5 n a hpc =>
    split_ifs at ht
    · cases ht
      refine .enqueues (q.data n) rfl ?_
      show (q.link p n a).linkedValues.drop q.dequeued.length = _
      rw [linkedValues_link, List.drop_append_of_le_length h.dequeued.length_le]
      rfl
    · cases ht
      exact .silent rfl rfl
  all_goals
    cases ht
    exact .silent rfl rfl

theorem consume_observes (h : q.Inv) (ht : q.consume = some t) : Observes q t := by
  cases h.consumes ht with
  | loadHead more hpc => exact .silent rfl rfl
  | nullopt more hpc hnext =>
    refine .nullopt rfl ?_
    unfold contents
    rw [h.dequeued_eq hnext, List.drop_length]
  | loadNext more x hpc hnext => exact .silent rfl rfl
  | storeHead more x hpc hnext =>
    have hlast : (q.results ++ [some (q.data x)]).filterMap id = q.dequeued ++ [q.data x] := by
      simp [dequeued]
    -- with the new value, what was dequeued is still a prefix
    obtain ⟨rest, hrest⟩ := h.dequeued_append hnext
    refine .dequeues (q.data x) rfl ?_
    show q.linkedValues.drop q.dequeued.length =
      q.data x :: q.linkedValues.drop ((q.results ++ [some (q.data x)]).filterMap id).length
    rw [hlast, ← hrest, List.drop_left, List.append_assoc, List.drop_left]
    rfl

/-- To its users the queue is a list: values come in at its end and go out at its front. -/
theorem step_observes (h : q.Inv) {a : Action α} (ht : q.step a = some t) : Observes q t := by
  cases a with
  | enqueue p val =>
    simp only [step] at ht
    split_ifs at ht
    cases ht
    refine .silent rfl ?_
    show (q.enqueue p val).linkedValues.drop q.dequeued.length = _
    rw [h.linkedValues_enqueue]
    rfl
  | produce p spurious => exact produce_observes h ht
  | dequeueBulk maxCount =>
    simp only [step] at ht
    split at ht <;> cases ht
    exact .silent rfl rfl
  | consume => exact consume_observes h ht

theorem run_inv {default : α} {as : List (Action α)}
    (hr : Steps.run step (init default) as = some q) : q.Inv :=
  Steps.invariant_of_run (I := Inv) (fun _ _ _ h ht => h.step ht) (init_inv default) hr

/-- The queue is a FIFO. What `dequeue` returns is, value by value, what the producers have
linked; each producer links the values of its calls in program order, all but that of a call
that is still under way; and `dequeue` returns nothing only when nothing linked is left. -/
theorem dequeued_isPrefix_linked (default : α) (as : List (Action α))
    (hr : Steps.run step (init default) as = some q) :
    q.dequeued <+: q.linkedValues ∧
      (∀ p, ((q.links.take q.dequeued.length).filter (·.producer = p)).map (q.data ·.node) <+:
        q.calls p) ∧
      (∀ p, q.linkedBy p ++ (q.pending p).toList = q.calls p ∧
        (q.producers p = .idle → q.linkedBy p = q.calls p)) ∧
      ∀ a t, q.step a = some t → t.results = q.results ++ [none] → q.dequeued = q.linkedValues := by
  have h := run_inv hr
  refine ⟨h.dequeued, ?_, fun p => ⟨h.program p, h.linkedBy_of_idle⟩, ?_⟩
  · intro p
    have htake : q.links.take q.dequeued.length <+: q.links := List.take_prefix _ _
    exact ((htake.filter _).map _).trans (h.linkedBy_isPrefix p)
  · intro a t ht hres
    cases step_observes h ht with
    | silent results contents => simp [results] at hres
    | enqueues val results contents => simp [results] at hres
    | nullopt results contents =>
      have hlen := List.drop_eq_nil_iff.mp contents
      exact h.dequeued.eq_of_length_le hlen
    | dequeues val results contents => simp [results] at hres

/-- Producer 0 loses the exchange to producer 1, moves `tail_` for it and links its own node. -/
theorem dequeued_isPrefix_linked_two :
    ∃ (as : List (Action ℕ)) (q : MPSCQueue ℕ), Steps.run step (init 0) as = some q ∧
      q.results = [some 7, some 8, none] ∧ q.dequeued <+: q.linkedValues := by
  obtain ⟨as, q, hr, hres⟩ : ∃ (as : List (Action ℕ)) (q : MPSCQueue ℕ),
      Steps.run step (init 0) as = some q ∧ q.results = [some 7, some 8, none] := by
    refine ⟨[.enqueue 0 8, .enqueue 1 7] ++ List.replicate 3 (.produce 0 false) ++
      List.replicate 4 (.produce 1 false) ++ List.replicate 10 (.produce 0 false) ++
      .dequeueBulk 3 :: List.replicate 8 .consume, _, rfl, ?_⟩
    rfl
  exact ⟨as, q, hr, hres, (dequeued_isPrefix_linked 0 as hr).1⟩

end MPSCQueue
end TermChat
