import TermChat.Base.Steps
import TermChat.Timer.NextTick

/-! The idle timeout of `Webserver`. `Start` calls `GetNextTick` before every wait, and the callback
of the timer closes the connection. The source has no lock for the timer; here its calls, also those
of the pool threads that close a connection, do not overlap. -/
namespace TermChat
open HeapTimer

structure IdleClose where
  fd : ℕ
  /-- The reading at which the timer of the connection was set last. -/
  active : ℕ
  /-- The reading at which it was found due. -/
  reading : ℕ
  deriving DecidableEq, Repr

structure IdleServer where
  timer : HeapTimer
  reads : ℕ
  /-- `connections_`. The entry of a closed connection stays, as `some false`. -/
  connections : ℕ → Option Bool
  /-- The reading at which a timer was set last, for every descriptor. -/
  active : ℕ → ℕ
  idle : List IdleClose

namespace IdleServer

/-- `accept` returns a descriptor; an event is dealt with, for reading or for writing; a connection
is closed by the loop or by a thread of the pool; or the loop comes to its next wait. -/
inductive Action where
  | addClient (fd : ℕ)
  | extendTime (fd : ℕ)
  | closeConn (fd : ℕ)
  | getNextTick
  deriving DecidableEq, Repr

def init : IdleServer := ⟨HeapTimer.init, 0, fun _ => none, fun _ => 0, []⟩

def IsOpen (s : IdleServer) (fd : ℕ) : Prop := s.connections fd = some true

instance (s : IdleServer) (fd : ℕ) : Decidable (s.IsOpen fd) :=
  inferInstanceAs (Decidable (s.connections fd = some true))

variable (clock : ℕ → ℤ) (timeoutMs : Int32)

def addClient (s : IdleServer) (fd : ℕ) : IdleServer :=
  let s := { s with connections := Function.update s.connections fd (some true) }
  if 0 < timeoutMs then
    { s with
      timer := s.timer.add fd timeoutMs (clock s.reads)
      reads := s.reads + 1
      active := Function.update s.active fd s.reads }
  else s

def extendTime (s : IdleServer) (fd : ℕ) : Option IdleServer :=
  if 0 < timeoutMs then
    (s.timer.adjust fd timeoutMs (clock s.reads)).map fun timer =>
      { s with
        timer := timer
        reads := s.reads + 1
        active := Function.update s.active fd s.reads }
  else some s

def closeConn (s : IdleServer) (fd : ℕ) : IdleServer :=
  { s with
    timer := if 0 < timeoutMs then s.timer.remove fd else s.timer
    connections := Function.update s.connections fd (some false) }

/-- What the callbacks of `Tick` do to the server: each closes the connection that `connections_` has
for its id. That `CloseConn_` has removed the id before `Tick` does makes no difference. -/
def closeFired (s : IdleServer) (r : Ticked) : IdleServer :=
  let closed := r.fired.filter fun x => (s.connections x.1.id).isSome
  { s with
    timer := r.timer
    reads := r.reads
    connections := fun fd => if fd ∈ closed.map (·.1.id) then some false else s.connections fd
    idle := s.idle ++ closed.map fun x => ⟨x.1.id, s.active x.1.id, x.2⟩ }

def tick (s : IdleServer) : IdleServer :=
  s.closeFired (s.timer.tick clock (fun _ => true) s.reads)

/-- What `Start` passes to `epoller_->Wait`, and the state in which it waits. -/
def getNextTick (s : IdleServer) : Int32 × IdleServer :=
  let r := s.timer.getNextTick clock (fun _ => true) s.reads
  (r.1, s.closeFired r.2)

/-- No step is a failed `assert`, or a descriptor that `connections_` does not have. -/
def step (s : IdleServer) : Action → Option IdleServer
  | .addClient fd =>
    -- the kernel does not hand out a descriptor that is in use
    if s.IsOpen fd then none else some (s.addClient clock timeoutMs fd)
  | .extendTime fd => if (s.connections fd).isSome then s.extendTime clock timeoutMs fd else none
  | .closeConn fd => if (s.connections fd).isSome then some (s.closeConn timeoutMs fd) else none
  | .getNextTick => some (if 0 < timeoutMs then (s.getNextTick clock).2 else s)

/-- The timer has the open connections, each with the expiry that its last event has set, and what
the callback has closed was idle for more than the timeout less one millisecond. -/
structure Inv (s : IdleServer) : Prop where
  heap : s.timer.IsHeap
  entries : ∀ fd, s.timer.toMap fd =
    if s.IsOpen fd then some (deadline (clock (s.active fd)) timeoutMs) else none
  read : ∀ fd, s.IsOpen fd → s.active fd < s.reads
  idled : ∀ c ∈ s.idle, c.active < c.reading ∧
    (timeoutMs.toInt - 1) * 1000000 < clock c.reading - clock c.active

variable {clock timeoutMs} {s t : IdleServer} {fd : ℕ}

theorem isOpen_update {b : Bool} (hc : t.connections = Function.update s.connections fd (some b))
    (fd' : ℕ) : t.IsOpen fd' ↔ if fd' = fd then b = true else s.IsOpen fd' := by
  unfold IsOpen
  rw [hc]
  by_cases hfd : fd' = fd
  · rw [hfd, Function.update_self, if_pos rfl, Option.some.injEq]
  · rw [Function.update_of_ne hfd, if_neg hfd]

namespace Inv

theorem toMap_eq_some_iff (h : Inv clock timeoutMs s) {e : ℤ} : s.timer.toMap fd = some e ↔
    s.IsOpen fd ∧ e = deadline (clock (s.active fd)) timeoutMs := by
  rw [h.entries fd]
  split_ifs with hopen
  · rw [Option.some.injEq]
    exact ⟨fun he => ⟨hopen, he.symm⟩, fun he => he.2.symm⟩
  · exact ⟨nofun, fun he => absurd he.1 hopen⟩

theorem toMap_eq_none_iff (h : Inv clock timeoutMs s) :
    s.timer.toMap fd = none ↔ ¬ s.IsOpen fd := by
  rw [h.entries fd]
  split_ifs with hopen <;> simp [hopen]

theorem set (h : Inv clock timeoutMs s) (hheap : t.timer.IsHeap)
    (hmap : t.timer.toMap =
      Function.update s.timer.toMap fd (some (deadline (clock s.reads) timeoutMs)))
    (hreads : t.reads = s.reads + 1) (hactive : t.active = Function.update s.active fd s.reads)
    (hopen : ∀ fd', t.IsOpen fd' ↔ if fd' = fd then True else s.IsOpen fd')
    (hidle : t.idle = s.idle) : Inv clock timeoutMs t := by
  refine ⟨hheap, fun fd' => ?_, fun fd' hfd' => ?_, fun c hc => h.idled c (hidle ▸ hc)⟩
  · rw [hmap, hactive]
    by_cases hfd : fd' = fd
    · have hopened : t.IsOpen fd' := by
        rw [hopen, if_pos hfd]
        trivial
      rw [if_pos hopened, hfd, Function.update_self, Function.update_self]
    · rw [Function.update_of_ne hfd, Function.update_of_ne hfd, h.entries fd']
      simp only [hopen, if_neg hfd]
  · rw [hactive, hreads]
    rw [hopen] at hfd'
    by_cases hfd : fd' = fd
    · rw [hfd, Function.update_self]
      exact Nat.lt_succ_self _
    · rw [if_neg hfd] at hfd'
      rw [Function.update_of_ne hfd]
      exact Nat.lt_succ_of_lt (h.read fd' hfd')

theorem unset (h : Inv clock timeoutMs s) (hheap : t.timer.IsHeap)
    (hmap : t.timer.toMap = Function.update s.timer.toMap fd none) (hreads : s.reads ≤ t.reads)
    (hactive : t.active = s.active)
    (hopen : ∀ fd', t.IsOpen fd' ↔ if fd' = fd then False else s.IsOpen fd')
    (hidle : ∀ c ∈ t.idle, c ∈ s.idle ∨ c.active < c.reading ∧
      (timeoutMs.toInt - 1) * 1000000 < clock c.reading - clock c.active) :
    Inv clock timeoutMs t := by
  refine ⟨hheap, fun fd' => ?_, fun fd' hfd' => ?_, fun c hc => (hidle c hc).elim (h.idled c) id⟩
  · rw [hmap, hactive]
    by_cases hfd : fd' = fd
    · have hclosed : ¬ t.IsOpen fd' := by
        rw [hopen, if_pos hfd]
        exact id
      rw [if_neg hclosed, hfd, Function.update_self]
    · rw [Function.update_of_ne hfd, h.entries fd']
      simp only [hopen, if_neg hfd]
  · rw [hactive]
    rw [hopen] at hfd'
    split_ifs at hfd' with hfd
    exact Nat.lt_of_lt_of_le (h.read fd' hfd') hreads

theorem init : Inv clock timeoutMs init := by
  refine ⟨isHeap_empty rfl, fun fd => ?_, fun fd hfd => ?_, fun c hc => ?_⟩
  · exact (forall_toMap_eq_none _).mpr rfl fd
  · cases hfd
  · cases hc

theorem addClient (h : Inv clock timeoutMs s) (hpos : 0 < timeoutMs) (fd : ℕ) :
    Inv clock timeoutMs (s.addClient clock timeoutMs fd) := by
  unfold IdleServer.addClient
  rw [if_pos hpos]
  refine h.set (isHeap_add h.heap _ _ _) (toMap_add _ _ _ _) rfl rfl (fun fd' => ?_) rfl
  rw [isOpen_update rfl]
  simp

theorem closeConn (h : Inv clock timeoutMs s) (hpos : 0 < timeoutMs) (fd : ℕ) :
    Inv clock timeoutMs (s.closeConn timeoutMs fd) := by
  unfold IdleServer.closeConn
  rw [if_pos hpos]
  refine h.unset (isHeap_remove h.heap fd) (toMap_remove _ _) (Nat.le_refl _) rfl (fun fd' => ?_)
    (fun c hc => .inl hc)
  rw [isOpen_update rfl]
  simp

theorem extendTime (h : Inv clock timeoutMs s) (hpos : 0 < timeoutMs)
    (ht : s.extendTime clock timeoutMs fd = some t) : Inv clock timeoutMs t := by
  unfold IdleServer.extendTime at ht
  rw [if_pos hpos] at ht
  obtain ⟨timer, htimer, rfl⟩ := Option.map_eq_some_iff.mp ht
  cases href : s.timer.ref fd with
  | none =>
    rw [adjust_of_ref_none _ href] at htimer
    cases htimer
  | some i =>
    have hi := s.timer.lt_size_of_ref href
    rw [adjust_of_ref h.heap href] at htimer
    obtain rfl := Option.some.inj htimer
    have hopen : s.IsOpen fd := by
      by_contra hclosed
      rw [← h.toMap_eq_none_iff, toMap_eq_none, href] at hclosed
      cases hclosed
    refine h.set (isHeap_reschedule h.heap _ hi) ?_ rfl rfl (fun fd' => ?_) rfl
    · rw [toMap_reschedule, s.timer.id_of_ref href hi]
    · by_cases hfd : fd' = fd
      · rw [if_pos hfd, hfd]
        exact iff_true_intro hopen
      · rw [if_neg hfd]
        rfl

section Fired

variable {r : Ticked} {reads' : ℕ}

/-- The node that `Tick` finds due is that of an open connection, and it is not early. -/
theorem of_fired (h : Inv clock timeoutMs s)
    (hticks : Expiries.Ticks clock s.timer.toMap s.reads r.fired r.timer.toMap reads')
    {node : TimerNode} {k : ℕ} (hx : (node, k) ∈ r.fired) :
    s.IsOpen node.id ∧ s.active node.id < k ∧
      (timeoutMs.toInt - 1) * 1000000 < clock k - clock (s.active node.id) := by
  obtain ⟨hentry, hk, -, hdue⟩ := hticks.of_mem hx
  obtain ⟨hopen, hexpires⟩ := h.toMap_eq_some_iff.mp hentry
  refine ⟨hopen, Nat.lt_of_lt_of_le (h.read _ hopen) hk, ?_⟩
  have hlate := mt remaining_pos.mpr (not_lt.mpr hdue)
  rw [hexpires] at hlate
  unfold deadline at hlate
  omega

theorem filter_fired (h : Inv clock timeoutMs s)
    (hticks : Expiries.Ticks clock s.timer.toMap s.reads r.fired r.timer.toMap reads') :
    (r.fired.filter fun x => (s.connections x.1.id).isSome) = r.fired := by
  refine List.filter_eq_self.mpr fun x hx => ?_
  rw [(h.of_fired hticks hx).1]
  rfl

theorem isOpen_closeFired_iff (h : Inv clock timeoutMs s)
    (hticks : Expiries.Ticks clock s.timer.toMap s.reads r.fired r.timer.toMap reads') (fd : ℕ) :
    (s.closeFired r).IsOpen fd ↔ s.IsOpen fd ∧ fd ∉ r.fired.map (·.1.id) := by
  have hconnections : (s.closeFired r).connections fd =
      if fd ∈ r.fired.map (·.1.id) then some false else s.connections fd := by
    simp only [IdleServer.closeFired, h.filter_fired hticks]
  unfold IsOpen
  rw [hconnections]
  split_ifs with hfired
  · simp [hfired]
  · simp [hfired]

theorem closeFired (h : Inv clock timeoutMs s) (hheap : r.timer.IsHeap)
    (hticks : Expiries.Ticks clock s.timer.toMap s.reads r.fired r.timer.toMap reads')
    (hreads : reads' ≤ r.reads) : Inv clock timeoutMs (s.closeFired r) where
  heap := hheap
  entries fd := by
    have hlookup : (s.closeFired r).timer.toMap fd =
        if fd ∈ r.fired.map (·.1.id) then none else s.timer.toMap fd := hticks.lookup fd
    have hopen := h.isOpen_closeFired_iff hticks fd
    rw [hlookup]
    by_cases hfired : fd ∈ r.fired.map (·.1.id)
    · rw [if_pos hfired, if_neg fun hstays => (hopen.mp hstays).2 hfired]
    · rw [if_neg hfired, h.entries fd]
      exact if_congr (hopen.trans (and_iff_left hfired)).symm rfl rfl
  read fd hopen := by
    have hopen' := ((h.isOpen_closeFired_iff hticks fd).mp hopen).1
    exact (h.read fd hopen').trans_le (hticks.reads_le.trans hreads)
  idled c hc := by
    simp only [IdleServer.closeFired, h.filter_fired hticks] at hc
    rcases List.mem_append.mp hc with hc | hc
    · exact h.idled c hc
    · obtain ⟨⟨node, k⟩, hx, rfl⟩ := List.mem_map.mp hc
      exact (h.of_fired hticks hx).2

end Fired

theorem tick (h : Inv clock timeoutMs s) : Inv clock timeoutMs (s.tick clock) :=
  h.closeFired (isHeap_tick clock _ h.heap s.reads) (ticks_tick clock _ h.heap s.reads) (Nat.le_refl _)

theorem getNextTick_snd (s : IdleServer) (clock : ℕ → ℤ) :
    ∃ reads, (s.tick clock).reads ≤ reads ∧
      (s.getNextTick clock).2 = { s.tick clock with reads := reads } := by
  unfold IdleServer.getNextTick IdleServer.tick
  by_cases h0 : 0 < (HeapTimer.tick clock (fun _ => true) s.timer s.reads).timer.heap.size
  · rw [getNextTick_of_pos _ _ h0]
    exact ⟨_, Nat.le_succ _, rfl⟩
  · rw [getNextTick_of_empty _ _ h0]
    exact ⟨_, Nat.le_refl _, rfl⟩

theorem getNextTick (h : Inv clock timeoutMs s) : Inv clock timeoutMs (s.getNextTick clock).2 := by
  obtain ⟨reads, hreads, heq⟩ := getNextTick_snd s clock
  rw [heq]
  exact ⟨h.tick.heap, h.tick.entries, fun fd hfd => (h.tick.read fd hfd).trans_le hreads,
    h.tick.idled⟩

theorem step (h : Inv clock timeoutMs s) (hpos : 0 < timeoutMs) {a : Action}
    (hstep : s.step clock timeoutMs a = some t) : Inv clock timeoutMs t := by
  cases a with
  | addClient fd =>
    simp only [IdleServer.step] at hstep
    split_ifs at hstep with hopen
    obtain rfl := Option.some.inj hstep
    exact h.addClient hpos fd
  | extendTime fd =>
    simp only [IdleServer.step] at hstep
    split_ifs at hstep with hpresent
    exact h.extendTime hpos hstep
  | closeConn fd =>
    simp only [IdleServer.step] at hstep
    split_ifs at hstep with hpresent
    obtain rfl := Option.some.inj hstep
    exact h.closeConn hpos fd
  | getNextTick =>
    simp only [IdleServer.step, if_pos hpos] at hstep
    obtain rfl := Option.some.inj hstep
    exact h.getNextTick

theorem of_run (hpos : 0 < timeoutMs) {acts : List Action}
    (hrun : Steps.run (IdleServer.step clock timeoutMs) IdleServer.init acts = some s) :
    Inv clock timeoutMs s :=
  Steps.invariant_of_run (fun _ _ _ hs hstep => hs.step hpos hstep) Inv.init hrun

end Inv

end IdleServer
end TermChat
