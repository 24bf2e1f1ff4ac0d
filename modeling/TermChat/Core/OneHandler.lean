import TermChat.Core.Lifetime

/-! Who works on a connection. A one-shot registration delivers one event, which becomes one task,
and the worker arms the descriptor again with its last `modFd`. So until then a connection is with one
thread at a time, as long as `notify_writable` does not arm it in between and timers hit idle
connections only. What a worker still has to do after its `modFd` can overlap with the next one. -/
namespace TermChat

/-- The worker has not armed the descriptor again. -/
def Job.handles : Job → Bool
  | .work (.updateEvents _) => false
  | _ => true

namespace Shared

variable (cfg : ServerConfig)

/-- A step that arms nothing. -/
structure Disarms (s t : Shared) : Prop where
  connections : t.connections = s.connections
  made : t.conns.length = s.conns.length
  epoll : ∀ fd, t.epoll fd = s.epoll fd ∨ t.epoll fd = none

theorem Disarms.refl (s : Shared) : Disarms s s := ⟨rfl, rfl, fun _ => .inl rfl⟩

theorem disarms_of_modify (s : Shared) (c : ConnId) (f : ConnObject → ConnObject) :
    Disarms s (s.update c f) :=
  ⟨rfl, List.length_modify f s.conns c, fun _ => .inl rfl⟩

private theorem disarms_update (s : Shared) (fd : Fd) (isOpen : Fd → Bool) :
    Disarms s { s with isOpen := isOpen, epoll := Function.update s.epoll fd none } := by
  refine ⟨rfl, rfl, fun fd' => ?_⟩
  by_cases hfd : fd' = fd
  · right
    rw [hfd]
    exact Function.update_self ..
  · left
    exact Function.update_of_ne hfd ..

theorem closeStep_disarms (s : Shared) (c : ConnId) (stage : Closing) :
    Disarms s (s.closeStep cfg c stage).1 := by
  unfold closeStep
  cases s.conns[c]? with
  | none => exact .refl s
  | some o =>
    cases stage with
    | delFd => exact s.disarms_update o.fd s.isOpen
    | close => exact s.disarms_update o.fd _
    | removeClient =>
      dsimp only
      split_ifs
      · exact ⟨rfl, rfl, fun _ => .inl rfl⟩
      · exact .refl s
    | mark => exact ⟨rfl, List.length_modify .., fun _ => .inl rfl⟩
    | removeTimer | test | quit => exact ⟨rfl, rfl, fun _ => .inl rfl⟩

/-- Of the steps of a worker, `modFd` alone arms a descriptor. -/
theorem workStep_disarms (s : Shared) (c : ConnId) (ending : Ending) {job : Job}
    (hjob : ∀ events, job ≠ .work (.modFd events)) : Disarms s (s.workStep cfg c ending job).1 := by
  unfold workStep
  cases s.conns[c]? with
  | none => exact .refl s
  | some o =>
    cases job with
    | closing stage => exact closeStep_disarms cfg s c stage
    | work work =>
      cases work with
      | read | process => exact .refl s
      | write => exact s.disarms_of_modify c _
      | toWriteBytes =>
        dsimp only
        split_ifs
        · exact .refl s
        · exact .refl s
        · exact .refl s
      | modFd events => exact absurd rfl (hjob events)
      | updateEvents events => exact s.disarms_of_modify c _

/-- Of the steps of `enqueue_messages`, `modFd` alone arms a descriptor. -/
theorem callStep_disarms (s : Shared) (c : ConnId) {call : Call} (hcall : call ≠ .modFd) :
    Disarms s (s.callStep cfg c call).1 := by
  unfold callStep
  cases s.conns[c]? with
  | none => exact .refl s
  | some o =>
    cases call with
    | enqueueing messages notify =>
      cases messages with
      | nil => exact .refl s
      | cons data messages =>
        dsimp only
        split_ifs
        · exact .refl s
        · exact s.disarms_of_modify c _
    | checkEvents => exact .refl s
    | modFd => exact absurd rfl hcall
    | storeEvents => exact s.disarms_of_modify c _

private theorem epoll_destroy (s : Shared) (c : ConnId) (fd : Fd) :
    (s.destroy cfg c).epoll fd = s.epoll fd ∨ (s.destroy cfg c).epoll fd = none := by
  have hstep : ∀ (u : Shared) (stage : Closing), (u.epoll fd = s.epoll fd ∨ u.epoll fd = none) →
      (u.closeStep cfg c stage).1.epoll fd = s.epoll fd ∨
        (u.closeStep cfg c stage).1.epoll fd = none := by
    intro u stage hu
    rcases (closeStep_disarms cfg u c stage).epoll fd with hsame | hnone
    · rw [hsame]
      exact hu
    · exact .inr hnone
  exact Threads.finish_keeps (fun (u : Shared) => u.closeStep cfg c) hstep 5 Closing.test (.inl rfl)

theorem epoll_addClient (s : Shared) {fd fd' : Fd} (hne : fd' ≠ fd) :
    (s.addClient cfg fd).epoll fd' = s.epoll fd' ∨ (s.addClient cfg fd).epoll fd' = none := by
  have hset : ∀ (u : Shared) (c : ConnId), (u.setConnection cfg fd c).epoll fd' = u.epoll fd' ∨
      (u.setConnection cfg fd c).epoll fd' = none := by
    intro u c
    unfold setConnection
    dsimp only
    split
    · exact .inl rfl
    · exact epoll_destroy cfg _ _ fd'
  have hadded : ∀ (u : Shared) (events : UInt32), (u.addFd fd events).2.epoll fd' = u.epoll fd' := by
    intro u events
    unfold addFd
    split_ifs
    · exact Function.update_of_ne hne ..
    · rfl
  have hstored : ∀ (u : Shared) (c : ConnId) (added : Bool) (f : ConnObject → ConnObject),
      (if added = true then u.update c f else u).epoll fd' = u.epoll fd' := by
    intro u c added f
    cases added with
    | false => rfl
    | true => rfl
  unfold addClient
  dsimp only
  rw [hstored, hadded]
  exact hset _ _

theorem epoll_closeStep_delFd {s : Shared} {c : ConnId} {fd : Fd} (h : s.fdOf c = some fd) :
    (s.closeStep cfg c .delFd).1.epoll fd = none := by
  obtain ⟨o, ho, rfl⟩ := exists_of_fdOf h
  simp only [closeStep, ho]
  exact Function.update_self ..

end Shared

namespace Server
open Shared

/-- The fetched events, the queued tasks and the workers before their `modFd` for the connection. -/
def handlers (s : Server) (c : ConnId) : ℕ :=
  s.fetched.countP (fun x => s.connections x.1 = some c) + s.tasks.countP (fun x => x.1 = c) +
    s.running.countP (fun x => x.1 = c ∧ x.2.handles = true)

def Armed (s : Server) (c : ConnId) : Prop :=
  ∃ fd mask, s.connections fd = some c ∧ s.epoll fd = some mask ∧ mask ≠ 0

/-- At most one thread has the connection, and none while the descriptor is armed. The event loop
closes a connection that no thread has, and begins by taking it out of the epoll set. -/
structure Alone (s : Server) (c : ConnId) : Prop where
  one : s.handlers c ≤ 1
  armed : s.Armed c → s.handlers c = 0
  loop : ∀ stage, s.closing = some (c, stage) → s.handlers c = 0 ∧ (s.Armed c → stage = .delFd)

/-- A worker on the connection that is past its `modFd` stores the event mask and is done. -/
def StoresMask (cfg : ServerConfig) (s : Server) (c : ConnId) : Prop :=
  ∀ i job ending, s.running[i]? = some (c, job) → job.handles = false →
    ∃ events, s.onWork cfg i ending = some { s with
      toShared := s.toShared.update c fun o => { o with events := events }
      running := s.running.eraseIdx i }

/-- `notify_writable` arms no descriptor, and timers expire for connections that nobody works on. -/
def Undisturbed (s : Server) : Action → Prop
  | .flush _ => ∀ c batches, s.flush ≠ .call c .modFd batches
  | .expire fd => ∀ c, s.connections fd = some c → s.handlers c = 0
  | _ => True

structure Exclusive (s : Server) : Prop where
  sound : s.Sound
  running : ∀ x ∈ s.running, x.1 < s.conns.length
  alone : ∀ c, s.Alone c

variable {cfg : ServerConfig} {s t : Server} {c d : ConnId} {fd : Fd}

theorem Sound.fd_unique (h : s.Sound) {fd' : Fd} (hc : s.connections fd = some c)
    (hc' : s.connections fd' = some c) : fd = fd' := by
  have hfd := ((h.shared.owner fd c).mp hc).1
  have hfd' := ((h.shared.owner fd' c).mp hc').1
  rw [hfd] at hfd'
  exact Option.some.inj hfd'

/-- A step that brings no thread to the connection and does not arm it. -/
theorem Alone.mono (h : s.Alone c) (hhandlers : t.handlers c ≤ s.handlers c)
    (harmed : t.Armed c → s.Armed c)
    (hloop : ∀ stage, t.closing = some (c, stage) → ∃ stage', s.closing = some (c, stage') ∧
      (t.Armed c → stage' = .delFd → stage = .delFd)) : t.Alone c := by
  constructor
  · exact hhandlers.trans h.one
  · intro ht
    have hzero := h.armed (harmed ht)
    omega
  · intro stage hstage
    obtain ⟨stage', hstage', hsame⟩ := hloop stage hstage
    obtain ⟨hzero, hdel⟩ := h.loop stage' hstage'
    exact ⟨by omega, fun ht => hsame ht (hdel (harmed ht))⟩

theorem Alone.congr (h : s.Alone c) (hconnections : t.connections = s.connections)
    (hepoll : t.epoll = s.epoll) (hfetched : t.fetched = s.fetched) (htasks : t.tasks = s.tasks)
    (hrunning : t.running = s.running) (hclosing : t.closing = s.closing) : t.Alone c := by
  have hhandlers : t.handlers c = s.handlers c := by
    simp only [handlers, hconnections, hfetched, htasks, hrunning]
  have harmed : t.Armed c → s.Armed c := by
    unfold Armed
    rw [hconnections, hepoll]
    exact id
  refine h.mono hhandlers.le harmed fun stage hstage => ⟨stage, ?_, fun _ => id⟩
  rw [← hclosing]
  exact hstage

theorem armed_of_disarms (h : Disarms s.toShared t.toShared) (ht : t.Armed c) : s.Armed c := by
  obtain ⟨fd, mask, hc, hmask, hne⟩ := ht
  rw [h.connections] at hc
  rcases h.epoll fd with hsame | hnone
  · exact ⟨fd, mask, hc, hsame ▸ hmask, hne⟩
  · rw [hnone] at hmask
    cases hmask

theorem init_exclusive (hash : UInt64 → ℕ) : (init hash).Exclusive := by
  have hzero : ∀ c, (init hash).handlers c = 0 := by
    intro c
    simp [handlers, init]
  refine ⟨init_sound hash, by simp [init], fun c => ⟨?_, ?_, ?_⟩⟩
  · rw [hzero]
    omega
  · exact fun _ => hzero c
  · intro stage hstage
    simp [init] at hstage

/-! ### The event loop -/

/-- A list of different descriptors has that of a connection at most once. -/
theorem Sound.countP_fds_le_one (h : s.Sound) {ready : List (Fd × UInt32)}
    (hnodup : (ready.map Prod.fst).Nodup) (c : ConnId) :
    ready.countP (fun x => s.connections x.1 = some c) ≤ 1 := by
  have hmap : ready.countP (fun x => s.connections x.1 = some c) =
      (ready.map Prod.fst).countP (fun fd => s.connections fd = some c) := by
    rw [List.countP_map]
    rfl
  rw [hmap]
  by_cases hany : ∃ fd, s.connections fd = some c
  · obtain ⟨fd, hfd⟩ := hany
    have hle : (ready.map Prod.fst).countP (fun fd => s.connections fd = some c) ≤
        (ready.map Prod.fst).count fd := by
      apply List.countP_mono_left
      intro fd' _ hfd'
      rw [decide_eq_true_eq] at hfd'
      exact beq_iff_eq.mpr (h.fd_unique hfd' hfd)
    exact hle.trans (List.nodup_iff_count_le_one.mp hnodup fd)
  · have hzero : (ready.map Prod.fst).countP (fun fd => s.connections fd = some c) = 0 := by
      rw [List.countP_eq_zero]
      intro fd _
      rw [decide_eq_true_eq]
      exact fun hfd => hany ⟨fd, hfd⟩
    omega

/-- Events are delivered for armed descriptors, once for each. -/
theorem Exclusive.wait (h : s.Exclusive) {ready : List (Fd × UInt32)}
    (ht : s.onWait ready = some t) : t.Exclusive := by
  have hsound := wait_sound h.sound ht
  unfold onWait at ht
  split_ifs at ht with hcond
  cases ht
  obtain ⟨hclosing, hfetched, hnodup, hready⟩ := hcond
  refine ⟨hsound, h.running, fun c => ?_⟩
  have halone := h.alone c
  have hcount := h.sound.countP_fds_le_one hnodup c
  have hzero : s.fetched.countP (fun x => s.connections x.1 = some c) = 0 := by
    rw [hfetched]
    exact List.countP_nil
  -- a connection with an event was armed
  have hfrom : ready.countP (fun x => s.connections x.1 = some c) ≠ 0 → s.Armed c := by
    intro hpos
    obtain ⟨x, hx, hxc⟩ := List.countP_pos_iff.mp (Nat.pos_of_ne_zero hpos)
    have hevent := List.all_eq_true.mp hready x hx
    unfold Shared.ready at hevent
    split at hevent
    · cases hevent
    · rename_i mask hmask
      simp only [Bool.and_eq_true, decide_eq_true_eq] at hevent
      exact ⟨x.1, mask, of_decide_eq_true hxc, hmask, hevent.1.1⟩
  constructor
  · by_cases hn : ready.countP (fun x => s.connections x.1 = some c) = 0
    · have hone := halone.one
      simp only [handlers] at hone ⊢
      omega
    · have hidle := halone.armed (hfrom hn)
      simp only [handlers] at hidle ⊢
      omega
  · rintro ⟨fd, mask, hc, hmask, hne⟩
    dsimp only at hc hmask
    split_ifs at hmask with hmem
    · cases hmask
      exact absurd rfl hne
    · have hidle := halone.armed ⟨fd, mask, hc, hmask, hne⟩
      have hn : ready.countP (fun x => s.connections x.1 = some c) = 0 := by
        rw [List.countP_eq_zero]
        intro x hx hxc
        have hfd := h.sound.fd_unique (of_decide_eq_true hxc) hc
        exact hmem (hfd ▸ List.mem_map_of_mem hx)
      simp only [handlers] at hidle ⊢
      omega
  · intro stage hstage
    rw [show s.closing = some (c, stage) from hstage] at hclosing
    cases hclosing

/-- The event becomes a task or the closing of the connection, or is dropped. -/
theorem Exclusive.dispatch (h : s.Exclusive) (ht : s.onDispatch = some t) : t.Exclusive := by
  have hsound := dispatch_sound h.sound ht
  unfold onDispatch at ht
  split at ht
  · rename_i fd events rest hclosing hfetched
    obtain ⟨c, hc, rfl⟩ := Option.map_eq_some_iff.mp ht
    have hcount : ∀ d, s.handlers d = (if d = c then 1 else 0) +
        rest.countP (fun x => s.connections x.1 = some d) + s.tasks.countP (fun x => x.1 = d) +
          s.running.countP (fun x => x.1 = d ∧ x.2.handles = true) := by
      intro d
      simp only [handlers, hfetched, List.countP_cons, hc, Option.some.injEq, decide_eq_true_eq]
      have hsame : (if c = d then 1 else 0) = if d = c then 1 else 0 := by
        simp only [eq_comm]
      omega
    -- the event is what the connection has, so it is not armed
    have hunarmed : ¬ s.Armed c := by
      intro harmed
      have hidle := (h.alone c).armed harmed
      have hhas := hcount c
      rw [if_pos rfl] at hhas
      omega
    -- the task takes the place of the event
    have hmoved : ∀ u : Server, u.connections = s.connections → u.epoll = s.epoll →
        u.closing = none → (∀ d, u.handlers d ≤ s.handlers d) → ∀ d, u.Alone d := by
      intro u hconnections hepoll hnone hle d
      refine (h.alone d).mono (hle d) ?_ ?_
      · unfold Armed
        rw [hconnections, hepoll]
        exact id
      · intro stage hstage
        rw [hnone] at hstage
        cases hstage
    have htask : ∀ work d, handlers { s with fetched := rest, tasks := s.tasks ++ [(c, work)] } d ≤
        s.handlers d := by
      intro work d
      have hhas := hcount d
      simp only [handlers, List.countP_append, List.countP_singleton, decide_eq_true_eq] at hhas ⊢
      have hsame : (if c = d then 1 else 0) = if d = c then 1 else 0 := by
        simp only [eq_comm]
      omega
    dsimp only at hsound ⊢
    split_ifs at hsound ⊢
    · refine ⟨hsound, h.running, fun d => ?_⟩
      have hhas := hcount d
      by_cases hd : d = c
      · subst hd
        have hone := (h.alone d).one
        rw [if_pos rfl] at hhas
        have hzero : handlers { s with fetched := rest, closing := some (d, .delFd) } d = 0 := by
          simp only [handlers] at hhas hone ⊢
          omega
        exact ⟨by omega, fun harmed => absurd harmed hunarmed,
          fun stage _ => ⟨hzero, fun harmed => absurd harmed hunarmed⟩⟩
      · rw [if_neg hd] at hhas
        refine (h.alone d).mono ?_ id ?_
        · simp only [handlers] at hhas ⊢
          omega
        · rintro stage ⟨⟩
          exact absurd rfl hd
    · exact ⟨hsound, h.running, hmoved _ rfl rfl hclosing (htask .read)⟩
    · exact ⟨hsound, h.running, hmoved _ rfl rfl hclosing (htask .write)⟩
    · refine ⟨hsound, h.running, hmoved _ rfl rfl hclosing fun d => ?_⟩
      have hhas := hcount d
      simp only [handlers] at hhas ⊢
      omega
  · cases ht

theorem Exclusive.expire (h : s.Exclusive) (hidle : ∀ c, s.connections fd = some c → s.handlers c = 0)
    (ht : s.onExpire fd = some t) : t.Exclusive := by
  have hsound := expire_sound h.sound ht
  unfold onExpire at ht
  split_ifs at ht with hcond
  obtain ⟨hclosing, -, -⟩ := hcond
  split at ht
  · cases ht
    exact ⟨hsound, h.running, fun d => (h.alone d).congr rfl rfl rfl rfl rfl rfl⟩
  · rename_i c hc
    cases ht
    refine ⟨hsound, h.running, fun d => ?_⟩
    by_cases hd : d = c
    · subst hd
      have hzero : handlers { s with closing := some (d, .delFd) } d = 0 := hidle d hc
      refine ⟨by omega, fun _ => hzero, ?_⟩
      rintro stage ⟨⟩
      exact ⟨hzero, fun _ => rfl⟩
    · refine (h.alone d).mono (le_refl (s.handlers d)) id ?_
      rintro stage ⟨⟩
      exact absurd rfl hd

theorem Exclusive.closeLoop (h : s.Exclusive) (ha : s.RetiresAlone .closeLoop)
    (ht : s.onCloseLoop cfg = some t) : t.Exclusive := by
  have hsound := closeLoop_sound h.sound ha ht
  obtain ⟨⟨c, stage⟩, hx, rfl⟩ := Option.map_eq_some_iff.mp ht
  have hdisarms := closeStep_disarms cfg s.toShared c stage
  have hhandlers : ∀ d, handlers { s with
      toShared := (s.toShared.closeStep cfg c stage).1
      closing := (s.toShared.closeStep cfg c stage).2.map fun stage => (c, stage) } d =
        s.handlers d := by
    intro d
    simp only [handlers, hdisarms.connections]
  refine ⟨hsound, ?_, fun d => ?_⟩
  · dsimp only
    rw [hdisarms.made]
    exact h.running
  · refine (h.alone d).mono (hhandlers d).le (armed_of_disarms hdisarms) ?_
    · intro stage' hstage'
      obtain ⟨next, -, heq⟩ := Option.map_eq_some_iff.mp hstage'
      cases heq
      refine ⟨stage, hx, ?_⟩
      rintro ⟨fd, mask, hc, hmask, -⟩ rfl
      -- the descriptor of the connection has just left the epoll set
      dsimp only at hc hmask
      rw [hdisarms.connections] at hc
      have hfd := ((h.sound.shared.owner fd c).mp hc).1
      rw [epoll_closeStep_delFd cfg hfd] at hmask
      cases hmask

/-! ### The workers -/

theorem count_and_le (p q : Prop) [Decidable p] [Decidable q] :
    (if p ∧ q then 1 else 0) ≤ if p then 1 else 0 := by
  split_ifs with hboth hp
  · exact Nat.le_refl 1
  · exact absurd hboth.1 hp
  · exact Nat.zero_le 1
  · exact Nat.le_refl 0

theorem Exclusive.take (h : s.Exclusive) (ht : s.onTake cfg = some t) : t.Exclusive := by
  have hsound := take_sound h.sound ht
  unfold onTake at ht
  split at ht
  · cases ht
  · rename_i c work rest htasks
    split_ifs at ht
    cases ht
    refine ⟨hsound, ?_, fun d => ?_⟩
    · intro x hx
      rcases List.mem_append.mp hx with hx | hx
      · exact h.running x hx
      · obtain ⟨-, fd, hfd, -⟩ := h.sound.tasks (c, work) (by rw [htasks]; exact List.mem_cons_self)
        rw [List.mem_singleton.mp hx]
        exact lt_of_fdOf hfd
    · refine (h.alone d).mono ?_ id fun stage hstage => ⟨stage, hstage, fun _ => id⟩
      simp only [handlers, htasks, List.countP_append, List.countP_cons, List.countP_nil,
        decide_eq_true_eq]
      have hle := count_and_le (c = d) (Job.handles (.work work) = true)
      omega

/-- What the connections have after a step of worker `i`, which has `c`. -/
theorem handlers_advance {i : ℕ} {job : Job} (hi : s.running[i]? = some (c, job)) {sh : Shared}
    (hconnections : sh.connections = s.connections) (next : Option Job) (d : ConnId) :
    handlers { s with
        toShared := sh, running := Threads.advance s.running i (next.map fun job => (c, job)) } d +
        (if c = d ∧ job.handles = true then 1 else 0) =
      s.handlers d + if c = d ∧ next.any Job.handles = true then 1 else 0 := by
  have hold := Threads.countP_eq hi fun x => x.1 = d ∧ x.2.handles = true
  have hnew := Threads.countP_advance hi (next.map fun job => (c, job))
    fun x => x.1 = d ∧ x.2.handles = true
  have hnext : (next.map fun job => (c, job)).toList.countP (fun x => x.1 = d ∧ x.2.handles = true) =
      if c = d ∧ next.any Job.handles = true then 1 else 0 := by
    cases next with
    | none => simp
    | some job => simp [List.countP_singleton]
  simp only [decide_eq_true_eq] at hold
  simp only [handlers, hconnections]
  omega

/-- The worker arms the descriptor and lets go of the connection. -/
theorem Exclusive.rearm (h : s.Exclusive) {i : ℕ} {ending : Ending} {events : UInt32}
    (hi : s.running[i]? = some (c, .work (.modFd events))) :
    let out := s.toShared.workStep cfg c ending (.work (.modFd events))
    let t : Server := { s with
      toShared := out.1
      running := Threads.advance s.running i (out.2.map fun job => (c, job)) }
    t.Sound → t.Exclusive := by
  intro out t hsound
  have hmem := List.mem_of_getElem? hi
  obtain ⟨hexist, fd, hfd, -⟩ := (h.sound.running _ hmem).live (by simp)
  obtain ⟨o, ho, rfl⟩ := exists_of_fdOf hfd
  have hown : s.connections o.fd = some c := (h.sound.shared.owner o.fd c).mpr ⟨hfd, hexist⟩
  have hout : out = ((s.toShared.modFd o.fd events).2, some (.work (.updateEvents events))) := by
    simp only [out, workStep, ho]
  have hconnections : (s.toShared.modFd o.fd events).2.connections = s.connections := by
    unfold modFd
    split_ifs
    · rfl
    · rfl
  have hmade : (s.toShared.modFd o.fd events).2.conns = s.conns := by
    unfold modFd
    split_ifs
    · rfl
    · rfl
  have hepoll : ∀ fd', fd' ≠ o.fd → (s.toShared.modFd o.fd events).2.epoll fd' = s.epoll fd' := by
    intro fd' hne
    unfold modFd
    split_ifs
    · rfl
    · exact Function.update_of_ne hne ..
  have ht : t = { s with
      toShared := (s.toShared.modFd o.fd events).2
      running := Threads.advance s.running i (some (c, .work (.updateEvents events))) } := by
    simp only [t, hout, Option.map_some]
  have hcount : ∀ d, t.handlers d + (if c = d then 1 else 0) = s.handlers d := by
    intro d
    have hcount := handlers_advance hi hconnections (some (.work (.updateEvents events))) d
    rw [ht]
    simpa [Job.handles] using hcount
  refine ⟨hsound, ?_, fun d => ?_⟩
  · rw [ht]
    dsimp only
    rw [hmade]
    refine Threads.forall_mem_advance hi h.running ?_
    rintro x ⟨⟩
    exact (h.running (c, .work (.modFd events)) hmem : c < s.conns.length)
  · have hd := hcount d
    by_cases hcd : c = d
    · subst hcd
      rw [if_pos rfl] at hd
      have hone := (h.alone c).one
      refine ⟨by omega, fun _ => by omega, fun stage hstage => ?_⟩
      have hzero := ((h.alone c).loop stage (by rw [ht] at hstage; exact hstage)).1
      omega
    · rw [if_neg hcd] at hd
      refine (h.alone d).mono (by omega) ?_ ?_
      · rintro ⟨fd', mask, hc, hmask, hne⟩
        rw [ht] at hc hmask
        have hdiff : fd' ≠ o.fd := by
          rintro rfl
          rw [show s.connections o.fd = some d from hconnections ▸ hc] at hown
          exact hcd (Option.some.inj hown).symm
        exact ⟨fd', mask, hconnections ▸ hc, (hepoll fd' hdiff) ▸ hmask, hne⟩
      · rw [ht]
        exact fun stage hstage => ⟨stage, hstage, fun _ => id⟩

theorem Exclusive.work (h : s.Exclusive) {i : ℕ} {ending : Ending}
    (ha : s.RetiresAlone (.work i ending)) (ht : s.onWork cfg i ending = some t) : t.Exclusive := by
  have hsound := work_sound h.sound ha ht
  obtain ⟨⟨c, job⟩, hi, rfl⟩ := Option.map_eq_some_iff.mp ht
  by_cases hjob : ∃ events, job = .work (.modFd events)
  · obtain ⟨events, rfl⟩ := hjob
    exact h.rearm hi hsound
  · rw [not_exists] at hjob
    have hdisarms := workStep_disarms cfg s.toShared c ending hjob
    refine ⟨hsound, ?_, fun d => ?_⟩
    · dsimp only
      rw [hdisarms.made]
      refine Threads.forall_mem_advance hi h.running ?_
      rintro x hx
      obtain ⟨next, -, rfl⟩ := Option.map_eq_some_iff.mp hx
      exact h.running (c, job) (List.mem_of_getElem? hi)
    · refine (h.alone d).mono ?_ (armed_of_disarms hdisarms) fun stage hstage =>
        ⟨stage, hstage, fun _ => id⟩
      dsimp only
      have hcount := handlers_advance hi hdisarms.connections
        (s.toShared.workStep cfg c ending job).2 d
      -- a worker that stores the mask comes to its end
      have hover : job.handles = false → (s.toShared.workStep cfg c ending job).2 = none := by
        intro hfalse
        unfold Job.handles at hfalse
        split at hfalse
        · unfold workStep
          split
          · rfl
          · rfl
        · cases hfalse
      cases hhandles : job.handles with
      | true =>
        have hle := count_and_le (c = d)
          ((s.toShared.workStep cfg c ending job).2.any Job.handles = true)
        simp only [hhandles, and_true] at hcount
        omega
      | false =>
        rw [hover hhandles] at hcount ⊢
        simp only [hhandles, Bool.false_eq_true, and_false, if_false, Option.any_none] at hcount
        exact hcount.le

/-! ### The other steps -/

theorem Exclusive.login (h : s.Exclusive) {i : ℕ} {user : UInt64} (ht : s.onLogin i user = some t) :
    t.Exclusive := by
  have hsound := login_sound h.sound ht
  unfold onLogin at ht
  split at ht
  · rename_i c hi
    cases ht
    refine ⟨hsound, ?_, fun d => (h.alone d).congr rfl rfl rfl rfl rfl rfl⟩
    have hmade := (s.toShared.disarms_of_modify c fun o => { o with userId := user }).made
    intro x hx
    exact (h.running x hx).trans_eq hmade.symm
  · cases ht

theorem Exclusive.push (h : s.Exclusive) (user : UInt64) (data : Bytes) :
    ({ s with push := (s.push.enqueueSerialized user data).2 } : Server).Exclusive :=
  ⟨push_sound h.sound user data, h.running, fun d => (h.alone d).congr rfl rfl rfl rfl rfl rfl⟩

theorem Exclusive.flush (h : s.Exclusive) {i : ℕ}
    (hquiet : ∀ c batches, s.flush ≠ .call c .modFd batches) (ht : s.onFlush cfg i = some t) :
    t.Exclusive := by
  have hsound := flush_sound h.sound ht
  have hsame : ∀ u : Server, u.Sound → u.connections = s.connections → u.conns = s.conns →
      u.epoll = s.epoll → u.fetched = s.fetched → u.tasks = s.tasks → u.running = s.running →
      u.closing = s.closing → u.Exclusive := by
    intro u hu hconnections hconns hepoll hfetched htasks hrunning hclosing
    refine ⟨hu, ?_, fun d => (h.alone d).congr hconnections hepoll hfetched htasks hrunning hclosing⟩
    rw [hrunning, hconns]
    exact h.running
  unfold onFlush at ht
  split at ht
  · dsimp only at ht
    split_ifs at ht
    cases ht
    exact hsame _ hsound rfl rfl rfl rfl rfl rfl rfl
  · cases ht
    exact hsame _ hsound rfl rfl rfl rfl rfl rfl rfl
  · split at ht
    · cases ht
      exact hsame _ hsound rfl rfl rfl rfl rfl rfl rfl
    · cases ht
      exact hsame _ hsound rfl rfl rfl rfl rfl rfl rfl
  · cases ht
    exact hsame _ hsound rfl rfl rfl rfl rfl rfl rfl
  · obtain ⟨⟨c, messages⟩, -, ht⟩ := Option.bind_eq_some_iff.mp ht
    obtain ⟨o, -, rfl⟩ := Option.map_eq_some_iff.mp ht
    exact hsame _ hsound rfl rfl rfl rfl rfl rfl rfl
  · rename_i c call batches hflush
    cases ht
    have hcall : call ≠ .modFd := by
      rintro rfl
      exact hquiet c batches hflush
    have hdisarms := callStep_disarms cfg s.toShared c hcall
    refine ⟨hsound, ?_, fun d => ?_⟩
    · dsimp only
      rw [hdisarms.made]
      exact h.running
    · refine (h.alone d).mono ?_ (armed_of_disarms hdisarms) fun stage hstage =>
        ⟨stage, hstage, fun _ => id⟩
      simp only [handlers, hdisarms.connections]
      exact Nat.le_refl _

theorem Exclusive.handlers_eq_zero (h : s.Exclusive) (hd : s.conns.length ≤ d) : s.handlers d = 0 := by
  have hfetched : s.fetched.countP (fun x => s.connections x.1 = some d) = 0 := by
    rw [List.countP_eq_zero]
    intro x _ hx
    have hlt := lt_of_fdOf ((h.sound.shared.owner x.1 d).mp (of_decide_eq_true hx)).1
    exact absurd hd (not_le.mpr hlt)
  have htasks : s.tasks.countP (fun x => x.1 = d) = 0 := by
    rw [List.countP_eq_zero]
    intro x hx hxd
    obtain ⟨-, fd, hfd, -⟩ := h.sound.tasks x hx
    have hlt := lt_of_fdOf hfd
    rw [of_decide_eq_true hxd] at hlt
    exact absurd hd (not_le.mpr hlt)
  have hrunning : s.running.countP (fun x => x.1 = d ∧ x.2.handles = true) = 0 := by
    rw [List.countP_eq_zero]
    intro x hx hxd
    have hlt := h.running x hx
    rw [(of_decide_eq_true hxd).1] at hlt
    exact absurd hd (not_le.mpr hlt)
  rw [handlers, hfetched, htasks, hrunning]

theorem Exclusive.accept (h : s.Exclusive)
    (ha : ∀ c, s.connections fd = some c → (c, .closing .quit) ∉ s.running)
    (ht : s.onAccept cfg fd = some t) : t.Exclusive := by
  have hsound := accept_sound h.sound ha ht
  unfold onAccept at ht
  split_ifs at ht with hcond
  · cases ht
    exact h
  · cases ht
    obtain ⟨hclosing, -, hfd⟩ := hcond
    have hadd : Added s.toShared (s.toShared.addClient cfg fd) fd := addClient_added h.sound.shared hfd
    have hhandlers : ∀ d, handlers { s with toShared := s.toShared.addClient cfg fd } d =
        s.handlers d := by
      intro d
      have hfetched : s.fetched.countP (fun x => (s.toShared.addClient cfg fd).connections x.1 = some d) =
          s.fetched.countP (fun x => s.connections x.1 = some d) := by
        apply List.countP_congr
        intro x hx
        have hne : x.1 ≠ fd := by
          intro heq
          have hopen := h.sound.fetched x hx
          rw [heq, hfd] at hopen
          cases hopen
        rw [hadd.connections, Function.update_of_ne hne]
      simp only [handlers, hfetched]
    have hlength : (s.toShared.addClient cfg fd).conns.length = s.conns.length + 1 := by
      obtain ⟨o, -, hconns⟩ := hadd.conns
      rw [hconns, List.length_append, List.length_singleton]
    refine ⟨hsound, ?_, fun d => ?_⟩
    · intro x hx
      have hmore : s.conns.length < (s.toShared.addClient cfg fd).conns.length := by omega
      exact (h.running x hx).trans hmore
    · by_cases hd : d = s.conns.length
      · have hzero := h.handlers_eq_zero hd.ge
        refine ⟨?_, fun _ => (hhandlers d).trans hzero, fun stage hstage => ?_⟩
        · rw [hhandlers, hzero]
          omega
        · rw [show s.closing = some (d, stage) from hstage] at hclosing
          cases hclosing
      · refine (h.alone d).mono (hhandlers d).le ?_ fun stage hstage => ⟨stage, hstage, fun _ => id⟩
        rintro ⟨fd', mask, hc, hmask, hne⟩
        dsimp only at hc hmask
        rw [hadd.connections] at hc
        by_cases hsame : fd' = fd
        · rw [hsame, Function.update_self] at hc
          exact absurd (Option.some.inj hc).symm hd
        · rw [Function.update_of_ne hsame] at hc
          rcases epoll_addClient cfg s.toShared hsame with hold | hnone
          · exact ⟨fd', mask, hc, hold ▸ hmask, hne⟩
          · rw [hnone] at hmask
            cases hmask

theorem Exclusive.step (h : s.Exclusive) {a : Action} (ha : s.RetiresAlone a) (hu : s.Undisturbed a)
    (ht : s.step cfg a = some t) : t.Exclusive := by
  cases a with
  | accept fd => exact h.accept ha ht
  | wait ready => exact h.wait ht
  | dispatch => exact h.dispatch ht
  | expire fd => exact h.expire hu ht
  | closeLoop => exact h.closeLoop ha ht
  | take => exact h.take ht
  | work i ending => exact h.work ha ht
  | login i user => exact h.login ht
  | push user data =>
    cases ht
    exact h.push user data
  | flush i => exact h.flush hu ht

theorem storesMask (cfg : ServerConfig) (s : Server) (c : ConnId) : s.StoresMask cfg c := by
  intro i job ending hi hjob
  unfold Job.handles at hjob
  split at hjob
  · rename_i events
    refine ⟨events, ?_⟩
    have hstep : s.toShared.workStep cfg c ending (.work (.updateEvents events)) =
        (s.toShared.update c fun o => { o with events := events }, none) := by
      unfold workStep
      cases hc : s.conns[c]? with
      | none =>
        have hout : s.conns.length ≤ c := List.getElem?_eq_none_iff.mp hc
        simp [Shared.update, List.modify_eq_self hout]
      | some o => rfl
    simp only [onWork, hi, Option.map_some, hstep]
    rfl
  · cases hjob

/-- In every run in which connections are closed by the last thread that has them, `notify_writable`
arms no descriptor and timers expire for connections that nobody works on: up to the `modFd` of its
worker a connection is with one thread at a time, and with none while its descriptor is armed. A
worker that is past it has only the event mask to store. -/
theorem one_handler_along (cfg : ServerConfig) (hash : UInt64 → ℕ) (as : List Action)
    (h : Steps.Meets (step cfg) (fun s a => s.RetiresAlone a ∧ s.Undisturbed a) (init hash) as) :
    Steps.Along (step cfg) (fun s => ∀ c, s.Alone c ∧ s.StoresMask cfg c) (init hash) as := by
  refine Steps.along_of_meets (I := Exclusive) ?_ ?_ (init_exclusive hash) h
  · intro s a t hs ha ht
    exact hs.step ha.1 ha.2 ht
  · intro s hs c
    exact ⟨hs.alone c, storesMask cfg s c⟩

/-- The next part of the request arrives before the worker on the first one has stored the mask. -/
def overlapping : List Action :=
  partialRequest.take 7 ++ [.wait [(5, epollIn)], .dispatch, .take]

theorem one_handler_overlapping :
    Steps.Along (step sampleConfig) (fun s => ∀ c, s.Alone c ∧ s.StoresMask sampleConfig c)
        (init UInt64.toNat) overlapping ∧
      ∃ s, Steps.run (step sampleConfig) (init UInt64.toNat) overlapping = some s ∧
        s.running = [(0, .work (.updateEvents (connEvent true ||| epollIn))), (0, .work .read)] ∧
        s.handlers 0 = 1 := by
  have hmeets : Steps.Meets (step sampleConfig) (fun s a => s.RetiresAlone a ∧ s.Undisturbed a)
      (init UInt64.toNat) overlapping := by
    refine (Steps.meets_cons rfl).mpr ⟨⟨fun _ => nofun, trivial⟩, ?_⟩
    iterate 3 refine (Steps.meets_cons rfl).mpr ⟨⟨trivial, trivial⟩, ?_⟩
    iterate 3 refine (Steps.meets_cons rfl).mpr ⟨⟨fun _ => nofun, trivial⟩, ?_⟩
    iterate 2 refine (Steps.meets_cons rfl).mpr ⟨⟨trivial, trivial⟩, ?_⟩
    exact (Steps.meets_cons rfl).mpr ⟨⟨trivial, trivial⟩, trivial⟩
  exact ⟨one_handler_along sampleConfig UInt64.toNat _ hmeets, _, rfl, rfl, rfl⟩

end Server
end TermChat
