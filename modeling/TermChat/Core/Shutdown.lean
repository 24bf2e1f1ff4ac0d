import TermChat.Base.Steps
import TermChat.Dao.Writer
import TermChat.Proto.Messages
import Mathlib.Data.List.Perm.Subperm

/-! `~Webserver` against the writer thread. The body of the destructor closes the Scylla session;
`~MsgService`, which stops and joins the writer, runs with the members, after the body. -/
namespace TermChat
open Proto

namespace Shutdown

/-- The statements of the destructor that the writer can see, in their order. -/
inductive Destructor where
  | closeSession
  | stop
  | join
  | finished
  deriving DecidableEq

end Shutdown

/-- `written` lists the messages that were inserted since the destructor began. -/
structure Shutdown where
  writer : AsyncMsgWriter P2PMessage
  sessionOpen : Bool
  written : List P2PMessage
  pc : Shutdown.Destructor

namespace Shutdown

/-- The destructor begins, with the writer at any point. -/
def init (w : AsyncMsgWriter P2PMessage) : Shutdown := ⟨w, true, [], .closeSession⟩

/-- What has been accepted and is not inserted: the batch at hand and the queue. -/
def unsaved (s : Shutdown) : List P2PMessage := s.writer.persisting ++ s.writer.queue

inductive Action where
  | work
  | destruct

/-- What `InsertBatch` returns: an open session takes every batch, a closed one takes none. -/
def insertBatch (sessionOpen : Bool) (msgs : List P2PMessage) : Bool := msgs.isEmpty || sessionOpen

def work (s : Shutdown) : Shutdown :=
  { s with
    writer := s.writer.work (insertBatch s.sessionOpen s.writer.persisting)
    written := s.written ++ if s.sessionOpen then s.writer.persisting else [] }

def destruct (s : Shutdown) : Option Shutdown :=
  match s.pc with
  | .closeSession => some { s with sessionOpen := false, pc := .stop }
  | .stop =>
    if s.writer.running then some { s with writer := s.writer.stop, pc := .join }
    else some { s with pc := .finished }
  | .join => if s.writer.worker = .stopped then some { s with pc := .finished } else none
  | .finished => none

def step (s : Shutdown) : Action → Option Shutdown
  | .work => some s.work
  | .destruct => s.destruct

/-- The session is closed only when nothing is left to insert. -/
def ClosesWhenDrained (s : Shutdown) : Action → Prop
  | .work => True
  | .destruct => s.pc = .closeSession → s.unsaved = []

instance (s : Shutdown) (a : Action) : Decidable (ClosesWhenDrained s a) := by
  unfold ClosesWhenDrained
  split
  all_goals infer_instance

variable {s t : Shutdown} {accepted : List P2PMessage}

/-- Before the session is closed: everything accepted is inserted or still to be inserted. -/
structure Accounted (accepted : List P2PMessage) (s : Shutdown) : Prop where
  pc : s.pc = .closeSession
  sessionOpen : s.sessionOpen = true
  perm : accepted.Perm (s.written ++ s.unsaved)

/-- After the session is closed: `written` is final. -/
structure Closed (s : Shutdown) : Prop where
  pc : s.pc ≠ .closeSession
  sessionOpen : s.sessionOpen = false

theorem Closed.step (h : Closed s) {a : Action} (ht : step s a = some t) :
    Closed t ∧ t.written = s.written := by
  obtain ⟨hpc, hopen⟩ := h
  cases a with
  | work =>
    obtain rfl := Option.some.inj ht
    exact ⟨⟨hpc, hopen⟩, by simp [work, hopen]⟩
  | destruct =>
    change s.destruct = some t at ht
    unfold destruct at ht
    split at ht
    · rename_i hclose
      exact absurd hclose hpc
    · split_ifs at ht
      · obtain rfl := Option.some.inj ht
        exact ⟨⟨nofun, hopen⟩, rfl⟩
      · obtain rfl := Option.some.inj ht
        exact ⟨⟨nofun, hopen⟩, rfl⟩
    · split_ifs at ht
      obtain rfl := Option.some.inj ht
      exact ⟨⟨nofun, hopen⟩, rfl⟩
    · cases ht

theorem Closed.written_eq (h : Closed s) {as : List Action}
    (hr : Steps.run Shutdown.step s as = some t) : t.written = s.written := by
  have hstep : ∀ x a y, Closed x ∧ x.written = s.written → Shutdown.step x a = some y →
      Closed y ∧ y.written = s.written := by
    intro x a y hx hy
    obtain ⟨hclosed, hwritten⟩ := hx.1.step hy
    exact ⟨hclosed, hwritten.trans hx.2⟩
  exact (Steps.invariant_of_run hstep ⟨h, rfl⟩ hr).2

theorem Accounted.work (h : Accounted accepted s) : Accounted accepted s.work := by
  refine ⟨h.pc, h.sessionOpen, ?_⟩
  have hunsaved : s.unsaved = s.writer.persisting ++ s.work.unsaved := by
    simp only [unsaved, Shutdown.work, h.sessionOpen, insertBatch, Bool.or_true,
      AsyncMsgWriter.queue_work]
  have hwritten : s.work.written = s.written ++ s.writer.persisting := by
    simp [Shutdown.work, h.sessionOpen]
  rw [hwritten, List.append_assoc, ← hunsaved]
  exact h.perm

theorem closed_of_destruct (hpc : s.pc = .closeSession) (ht : step s .destruct = some t) :
    Closed t ∧ t.written = s.written := by
  simp only [step, destruct, hpc] at ht
  obtain rfl := Option.some.inj ht
  exact ⟨⟨nofun, rfl⟩, rfl⟩

theorem init_accounted (w : AsyncMsgWriter P2PMessage) :
    Accounted (w.persisting ++ w.queue) (init w) := ⟨rfl, rfl, List.Perm.refl _⟩

theorem accounted_or_closed {a : Action} (h : Accounted accepted s ∨ Closed s)
    (ht : step s a = some t) : Accounted accepted t ∨ Closed t := by
  cases h with
  | inr h => exact .inr (h.step ht).1
  | inl h =>
    cases a with
    | work =>
      obtain rfl := Option.some.inj ht
      exact .inl h.work
    | destruct => exact .inr (closed_of_destruct h.pc ht).1

/-- A close with nothing left to insert keeps everything accepted. -/
theorem saved_step {a : Action} (h : Accounted accepted s ∨ Closed s ∧ accepted.Perm s.written)
    (ha : ClosesWhenDrained s a) (ht : step s a = some t) :
    Accounted accepted t ∨ Closed t ∧ accepted.Perm t.written := by
  cases h with
  | inr h =>
    obtain ⟨hclosed, hwritten⟩ := h.1.step ht
    exact .inr ⟨hclosed, hwritten.symm ▸ h.2⟩
  | inl h =>
    cases a with
    | work =>
      obtain rfl := Option.some.inj ht
      exact .inl h.work
    | destruct =>
      obtain ⟨hclosed, hwritten⟩ := closed_of_destruct h.pc ht
      have hperm := h.perm
      rw [ha h.pc, List.append_nil, ← hwritten] at hperm
      exact .inr ⟨hclosed, hperm⟩

/-- When the destructor has finished, everything that was in the queue or in the batch at hand
has been inserted exactly if the session was closed with nothing left to insert. -/
theorem shutdown_saves_iff (w : AsyncMsgWriter P2PMessage) (as : List Action) (t : Shutdown)
    (hr : Steps.run step (init w) as = some t) (hfin : t.pc = .finished) :
    (w.persisting ++ w.queue).Subperm t.written ↔ Steps.Meets step ClosesWhenDrained (init w) as := by
  constructor
  · intro hsaved
    by_contra hmeets
    obtain ⟨pre, a, post, u, v, -, hpre, hstep, ha, hpost⟩ := Steps.exists_of_not_meets hr hmeets
    cases a with
    | work => exact ha trivial
    | destruct =>
      obtain ⟨hpc, hunsaved⟩ := Classical.not_imp.mp ha
      -- the session is closed while something is left, and nothing is inserted afterwards
      have hu : Accounted (w.persisting ++ w.queue) u ∨ Closed u :=
        Steps.invariant_of_run (I := fun s => Accounted (w.persisting ++ w.queue) s ∨ Closed s)
          (fun _ _ _ => accounted_or_closed) (.inl (init_accounted w)) hpre
      have hacc := hu.resolve_right fun hclosed => hclosed.pc hpc
      obtain ⟨hclosed, hwritten⟩ := closed_of_destruct hpc hstep
      have ht : t.written = u.written := (hclosed.written_eq hpost).trans hwritten
      have hlen := hsaved.length_le
      have hall := hacc.perm.length_eq.trans List.length_append
      have hleft := List.length_pos_iff.mpr hunsaved
      rw [ht] at hlen
      omega
  · intro hmeets
    have ht : Accounted (w.persisting ++ w.queue) t ∨
        Closed t ∧ (w.persisting ++ w.queue).Perm t.written :=
      Steps.invariant_of_meets
        (I := fun s => Accounted (w.persisting ++ w.queue) s ∨
          Closed s ∧ (w.persisting ++ w.queue).Perm s.written)
        (fun _ _ _ => saved_step) (.inl (init_accounted w)) hmeets hr
    cases ht with
    | inl hacc => exact absurd (hfin.symm.trans hacc.pc) nofun
    | inr hclosed => exact hclosed.2.subperm

def oneQueued : AsyncMsgWriter P2PMessage :=
  ⟨[{ msgId := 1, senderId := 1, receiverId := 2, timestamp := 1704067200 }], true, .test⟩

def savedFirst : List Action :=
  [.work, .work, .work, .destruct, .destruct, .work, .work, .work, .work, .destruct]

/-- The destructor closes the session and stops the writer, which then drains its queue. -/
def closedFirst : List Action :=
  [.destruct, .destruct, .work, .work, .work, .work, .work, .work, .work, .destruct]

theorem shutdown_saves_one_queued :
    ∃ t, Steps.run step (init oneQueued) savedFirst = some t ∧ t.pc = .finished ∧
      (oneQueued.persisting ++ oneQueued.queue).Subperm t.written := by
  obtain ⟨t, ht, hfin⟩ : ∃ t, Steps.run step (init oneQueued) savedFirst = some t ∧
      t.pc = .finished := ⟨_, rfl, rfl⟩
  exact ⟨t, ht, hfin, (shutdown_saves_iff oneQueued savedFirst t ht hfin).mpr (by decide)⟩

theorem shutdown_loses_one_queued :
    ∃ t, Steps.run step (init oneQueued) closedFirst = some t ∧ t.pc = .finished ∧
      t.written = [] ∧ ¬ (oneQueued.persisting ++ oneQueued.queue).Subperm t.written := by
  obtain ⟨t, ht, hfin, hwritten⟩ : ∃ t, Steps.run step (init oneQueued) closedFirst = some t ∧
      t.pc = .finished ∧ t.written = [] := ⟨_, rfl, rfl, rfl⟩
  refine ⟨t, ht, hfin, hwritten, fun hsub => ?_⟩
  have hlen := hsub.length_le
  rw [hwritten] at hlen
  exact absurd hlen (by decide)

end Shutdown
end TermChat
