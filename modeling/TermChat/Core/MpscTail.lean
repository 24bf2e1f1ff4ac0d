import TermChat.Core.MpscQueue

/-! The two ends of `MPSCQueue`. `dequeue` moves `head_` without regard to `tail_`, and deletes the
node it leaves. -/
namespace TermChat
namespace MPSCQueue

variable {α : Type} {q t : MPSCQueue α}

/-- The node that a step unlinks: `dequeue` stores to `head_` and deletes it. -/
def unlinks (q : MPSCQueue α) : Action α → Option ℕ
  | .consume =>
    match q.consumer with
    | .storeHead _ head _ _ => some head
    | _ => none
  | _ => none

/-- What a step can do to the two ends of the list and to what was returned. -/
inductive Effect (q : MPSCQueue α) (a : Action α) (t : MPSCQueue α) : Prop where
  | grows (order : q.order <+: t.order) (tail : t.tail = q.tail ∨ q.next q.tail = some t.tail)
      (head : t.head = q.head) (results : t.results = q.results) (unlinks : q.unlinks a = none)
  | nullopt (last : q.next q.head = none) (order : t.order = q.order) (tail : t.tail = q.tail)
      (head : t.head = q.head) (unlinks : q.unlinks a = none)
  | takes (val : α) (head : q.next q.head = some t.head) (order : t.order = q.order)
      (tail : t.tail = q.tail) (results : t.results = q.results ++ [some val])
      (unlinks : q.unlinks a = some q.head)

theorem goto_effect {p : ℕ} {pc : Producer} {spurious : Bool} :
    Effect q (.produce p spurious) (q.goto p pc) :=
  .grows (List.prefix_refl _) (.inl rfl) rfl rfl rfl

theorem casTail_effect {p x y : ℕ} {pc : Producer} {spurious : Bool} (hx : q.next x = some y) :
    Effect q (.produce p spurious) ((q.casTail x y).goto p pc) := by
  refine .grows (List.prefix_refl _) ?_ rfl rfl rfl
  show (if q.tail = x then y else q.tail) = q.tail ∨
    q.next q.tail = some (if q.tail = x then y else q.tail)
  split_ifs with heq
  · right
    rw [heq]
    exact hx
  · left
    rfl

theorem produce_effect (h : q.Inv) {p : ℕ} {spurious : Bool}
    (ht : q.produce p spurious = some t) : Effect q (.produce p spurious) t := by
  have hk := h.producers p
  unfold produce at ht
  cases hpc : q.producers p with
  | idle =>
    rw [hpc] at ht
    cases ht
  | casNext n a =>
    rw [hpc] at ht
    dsimp only at ht
    split_ifs at ht
    · cases ht
      exact .grows (order_link q p n a ▸ List.prefix_append _ _) (.inl rfl) rfl rfl rfl
    · cases ht
      exact goto_effect
  | swing n a =>
    rw [hpc] at ht hk
    cases ht
    exact casTail_effect (hk.behind a n rfl rfl)
  | help n a x =>
    rw [hpc] at ht hk
    cases ht
    exact casTail_effect (hk.behind a x rfl rfl)
  | _ =>
    rw [hpc] at ht
    cases ht
    exact goto_effect

theorem consume_effect (h : q.Inv) (ht : q.consume = some t) : Effect q .consume t := by
  cases h.consumes ht with
  | loadHead more hpc =>
    exact .grows (List.prefix_refl _) (.inl rfl) rfl rfl (by simp only [unlinks, hpc])
  | nullopt more hpc hnext => exact .nullopt hnext rfl rfl rfl (by simp only [unlinks, hpc])
  | loadNext more x hpc hnext =>
    exact .grows (List.prefix_refl _) (.inl rfl) rfl rfl (by simp only [unlinks, hpc])
  | storeHead more x hpc hnext =>
    exact .takes (q.data x) hnext rfl rfl rfl (by simp only [unlinks, hpc])

theorem step_effect (h : q.Inv) {a : Action α} (ht : q.step a = some t) : Effect q a t := by
  cases a with
  | enqueue p val =>
    simp only [step] at ht
    split_ifs at ht
    cases ht
    exact .grows (List.prefix_refl _) (.inl rfl) rfl rfl rfl
  | produce p spurious => exact produce_effect h ht
  | dequeueBulk maxCount =>
    simp only [step] at ht
    split at ht
    · cases ht
      exact .grows (List.prefix_refl _) (.inl rfl) rfl rfl rfl
    · cases ht
  | consume => exact consume_effect h ht

/-- `tail_` designates the node of `head_` or a later one. -/
def TailAhead (q : MPSCQueue α) : Prop := q.order.idxOf q.head ≤ q.order.idxOf q.tail

/-- The step does not unlink the node that `tail_` designates. -/
def SparesTail (q : MPSCQueue α) (a : Action α) : Prop := q.unlinks a ≠ some q.tail

/-- A step keeps `tail_` ahead exactly if it spares it. -/
theorem tailAhead_step (h : q.Inv) (hp : q.TailAhead) {a : Action α} (ht : q.step a = some t) :
    t.TailAhead ↔ q.SparesTail a := by
  have hmem := h.head_mem
  unfold TailAhead SparesTail at *
  cases step_effect h ht with
  | grows order tail head results unlinks =>
    obtain ⟨rest, hrest⟩ := order
    have hidx : ∀ b ∈ q.order, t.order.idxOf b = q.order.idxOf b := by
      intro b hb
      rw [← hrest]
      exact List.idxOf_append_of_mem hb
    have hahead : t.order.idxOf t.head ≤ t.order.idxOf t.tail := by
      rw [head, hidx _ hmem]
      cases tail with
      | inl tail =>
        rw [tail, hidx _ h.tail]
        exact hp
      | inr tail =>
        rw [hidx _ (h.linked.mem_of_next h.tail tail), h.linked.idxOf_next h.tail tail]
        omega
    simp [hahead, unlinks]
  | nullopt last order tail head unlinks => simp [order, tail, head, hp, unlinks]
  | takes val head order tail results unlinks =>
    rw [order, tail, unlinks, h.linked.idxOf_next hmem head, Option.some_inj.ne]
    constructor
    · intro hle heq
      rw [heq] at hle
      omega
    · intro hne
      have hidx : q.order.idxOf q.head ≠ q.order.idxOf q.tail :=
        fun heq => hne ((List.idxOf_inj hmem).mp heq)
      omega

/-- `tail_` stays ahead of `head_` in exactly the runs in which `dequeue` never unlinks the node
that `tail_` designates. -/
theorem tailAhead_iff (default : α) (as : List (Action α)) :
    Steps.Along step TailAhead (init default) as ↔ Steps.Meets step SparesTail (init default) as := by
  apply Steps.along_iff_meets (I := Inv)
  · exact fun _ _ _ h ht => h.step ht
  · exact fun _ _ _ h hp ht => tailAhead_step h hp ht
  · intro s a hnone hunlinks
    cases a with
    | consume =>
      simp only [step, consume] at hnone
      simp only [unlinks] at hunlinks
      split at hunlinks
      · rename_i hcons
        simp [hcons] at hnone
      · cases hunlinks
    | _ => cases hunlinks
  · exact init_inv default
  · exact Nat.le_refl _

/-- A producer has linked its node and not moved `tail_` yet; the consumer takes the value and
deletes the dummy, which `tail_` still designates. -/
theorem tail_behind : ∃ as : List (Action ℕ), ∃ q, Steps.run step (init 0) as = some q ∧
    ¬ q.TailAhead ∧ q.tail ∉ q.order.drop (q.order.idxOf q.head) := by
  refine ⟨.enqueue 0 7 :: List.replicate 4 (.produce 0 false) ++
    .dequeueBulk 1 :: List.replicate 3 .consume, _, rfl, ?_, ?_⟩
  · show ¬ (List.idxOf 1 [0, 1] ≤ List.idxOf 0 [0, 1])
    decide
  · show 0 ∉ List.drop (List.idxOf 1 [0, 1]) [0, 1]
    decide

end MPSCQueue
end TermChat
