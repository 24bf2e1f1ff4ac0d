import TermChat.Core.Ownership

/-! How long connection objects are used. `AddClient_` destroys the object that `connections_` has
under the number of the new descriptor. The pointers in tasks and in flush batches do not keep it
alive. -/
namespace TermChat
open Proto

namespace Shared

def Marked (s : Shared) (c : ConnId) : Prop := ∀ o, s.conns[c]? = some o → o.isClose = true

/-- What holds of the object while a worker stands at this point. -/
structure Busy (s : Shared) (c : ConnId) (job : Job) : Prop where
  exist : c ∉ s.destroyed
  live : job ≠ .closing .quit → s.Live c
  marked : job = .closing .removeClient ∨ job = .closing .close → s.Marked c

/-- The same for the event loop, which may find an object that is closed already. -/
structure Retiring (s : Shared) (c : ConnId) (stage : Closing) : Prop where
  exist : c ∉ s.destroyed
  live : stage = .mark ∨ stage = .removeClient ∨ stage = .close → s.Live c
  marked : stage = .removeClient ∨ stage = .close → s.Marked c

variable {cfg : ServerConfig} {s t : Shared} {c : ConnId} {stage next : Closing}

theorem Frame.marked (hf : Frame s t) (h : s.Marked c) : t.Marked c := by
  intro o ho
  by_contra hopen
  obtain ⟨o', ho', hopen'⟩ := hf.opened c o ho (Bool.eq_false_iff.mpr hopen)
  exact Bool.false_ne_true (hopen'.symm.trans (h o' ho'))

theorem Frame.busy (hf : Frame s t) {job : Job} (h : s.Busy c job) : t.Busy c job := by
  constructor
  · rw [hf.destroyed]
    exact h.exist
  · exact fun hjob => hf.live_iff.mpr (h.live hjob)
  · exact fun hjob => hf.marked (h.marked hjob)

theorem Frame.retiring (hf : Frame s t) (h : s.Retiring c stage) : t.Retiring c stage := by
  constructor
  · rw [hf.destroyed]
    exact h.exist
  · exact fun hstage => hf.live_iff.mpr (h.live hstage)
  · exact fun hstage => hf.marked (h.marked hstage)

theorem Added.marked {fd : Fd} (ha : Added s t fd) (hc : s.Live c) (h : s.Marked c) : t.Marked c := by
  intro o ho
  obtain ⟨-, fd', hfd', -⟩ := hc
  obtain ⟨o', -, hconns⟩ := ha.conns
  rw [hconns, List.getElem?_append_left (lt_of_fdOf hfd')] at ho
  exact h o ho

theorem Added.busy {fd : Fd} {job : Job} (ha : Added s t fd) (h : s.Sound) (hfd : s.isOpen fd = false)
    (hb : s.Busy c job) (hquit : job = .closing .quit → s.connections fd ≠ some c) : t.Busy c job := by
  constructor
  · by_cases hjob : job = .closing .quit
    · rw [ha.destroyed, List.mem_append, not_or]
      exact ⟨hb.exist, fun hold => hquit hjob (Option.mem_toList.mp hold)⟩
    · exact (ha.live h hfd (hb.live hjob)).1
  · exact fun hjob => ha.live h hfd (hb.live hjob)
  · intro hjob
    have hlive : s.Live c := by
      apply hb.live
      rintro rfl
      simp at hjob
    exact ha.marked hlive (hb.marked hjob)

/-- An object that is found open has an open descriptor. -/
theorem Sound.live_of_next_mark (h : s.Sound) (hc : c ∉ s.destroyed)
    (hnext : (s.closeStep cfg c stage).2 = some .mark) : s.Live c := by
  unfold closeStep at hnext
  cases ho : s.conns[c]? with
  | none =>
    rw [ho] at hnext
    cases hnext
  | some o =>
    rw [ho] at hnext
    cases stage <;> simp at hnext
    refine ⟨hc, o.fd, fdOf_eq ho, ?_⟩
    by_contra hfd
    have hclose := h.closed c o ho hc (Bool.eq_false_iff.mpr hfd)
    rw [hnext] at hclose
    cases hclose

theorem marked_closeStep (h : stage = .removeClient ∨ stage = .close → s.Marked c)
    (hnext : (s.closeStep cfg c stage).2 = some next) :
    next = .removeClient ∨ next = .close → (s.closeStep cfg c stage).1.Marked c := by
  intro hstage
  cases stage with
  | mark =>
    intro o ho
    unfold closeStep at ho
    cases hc : s.conns[c]? with
    | none =>
      rw [hc] at ho
      exact absurd (hc.symm.trans ho) (by simp)
    | some o' =>
      have hmark : (s.conns.modify c fun o => { o with isClose := true })[c]? = some o := by
        rw [hc] at ho
        exact ho
      rw [List.getElem?_modify, hc] at hmark
      simp only [if_pos, Option.map_eq_map, Option.map_some, Option.some.injEq] at hmark
      rw [← hmark]
  | removeClient => exact (closeStep_frame s c (by decide)).marked (h (.inl rfl))
  | delFd | removeTimer | test | close | quit =>
    unfold closeStep at hnext
    split at hnext
    · cases hnext
    · rcases hstage with rfl | rfl <;> simp at hnext

theorem next_of_closeStep (hnext : (s.closeStep cfg c stage).2 = some next) :
    stage ≠ .quit ∧ (next = .removeClient → stage = .mark) ∧ (next = .close → stage = .removeClient) := by
  unfold closeStep at hnext
  split at hnext
  · cases hnext
  · cases stage with
    | quit => cases hnext
    | test =>
      dsimp only at hnext
      split_ifs at hnext
      cases hnext
      simp
    | delFd | removeTimer | mark | removeClient | close =>
      cases hnext
      simp

theorem Retiring.closeStep (hr : s.Retiring c stage) (h : s.Sound) (hstage : stage ≠ .close)
    (hnext : (s.closeStep cfg c stage).2 = some next) : (s.closeStep cfg c stage).1.Retiring c next := by
  have hf : Frame s (s.closeStep cfg c stage).1 := closeStep_frame s c hstage
  obtain ⟨-, hremove, hclose⟩ := next_of_closeStep hnext
  refine ⟨?_, ?_, marked_closeStep hr.marked hnext⟩
  · rw [hf.destroyed]
    exact hr.exist
  · rintro (rfl | rfl | rfl)
    · exact hf.live_iff.mpr (h.live_of_next_mark hr.exist hnext)
    · exact hf.live_iff.mpr (hr.live (.inl (hremove rfl)))
    · exact hf.live_iff.mpr (hr.live (.inr (.inl (hclose rfl))))

theorem Busy.closeStep (hb : s.Busy c (.closing stage)) (hstage : stage ≠ .close)
    (hnext : (s.closeStep cfg c stage).2 = some next) :
    (s.closeStep cfg c stage).1.Busy c (.closing next) := by
  have hf : Frame s (s.closeStep cfg c stage).1 := closeStep_frame s c hstage
  have hquit := (next_of_closeStep hnext).1
  have hlive := hf.live_iff.mpr (hb.live (by simpa using hquit))
  refine ⟨hlive.1, fun _ => hlive, ?_⟩
  simp only [Job.closing.injEq]
  exact marked_closeStep (by simpa using hb.marked) hnext

theorem busy_of_live {job : Job} (hlive : s.Live c) (hjob : ∀ stage, job = .closing stage → stage = .delFd) :
    s.Busy c job := by
  refine ⟨hlive.1, fun _ => hlive, ?_⟩
  rintro (rfl | rfl)
  · cases hjob _ rfl
  · cases hjob _ rfl

theorem Busy.workStep {ending : Ending} {job job' : Job} (hb : s.Busy c job) (hjob : job ≠ .closing .close)
    (hnext : (s.workStep cfg c ending job).2 = some job') :
    (s.workStep cfg c ending job).1.Busy c job' := by
  have hf : Frame s (s.workStep cfg c ending job).1 := workStep_frame s c ending hjob
  cases ho : s.conns[c]? with
  | none =>
    simp only [Shared.workStep, ho] at hnext
    cases hnext
  | some o =>
    cases job with
    | closing stage =>
      have heq : s.workStep cfg c ending (.closing stage) =
          ((s.closeStep cfg c stage).1, (s.closeStep cfg c stage).2.map .closing) := by
        simp only [Shared.workStep, ho]
      rw [heq] at hnext ⊢
      obtain ⟨next, hclose, rfl⟩ := Option.map_eq_some_iff.mp hnext
      exact hb.closeStep (fun h => hjob (congrArg Job.closing h)) hclose
    | work work =>
      refine busy_of_live (hf.live_iff.mpr (hb.live (by simp))) ?_
      rintro stage rfl
      simp only [Shared.workStep, ho] at hnext
      cases work with
      | read =>
        dsimp only at hnext
        split_ifs at hnext
        · cases hnext
        · cases hnext
          rfl
      | toWriteBytes =>
        dsimp only at hnext
        split_ifs at hnext
        · cases hnext
        · cases hnext
        · cases hnext
          rfl
      | process | write | modFd events | updateEvents events => cases hnext

end Shared

namespace Server
open Shared

/-- A task, queued or running, or a batch of the flush thread has the object. -/
def Holds (s : Server) (c : ConnId) : Prop :=
  (∃ x ∈ s.tasks, x.1 = c) ∨ (∃ x ∈ s.running, x.1 = c) ∨ c ∈ s.flush.conns

/-- No task and no batch has an object that was destroyed. -/
def NoneOutlived (s : Server) : Prop := ∀ c, s.Holds c → c ∉ s.destroyed

/-- No queued task, no batch, no event to be handled and no user leads to the object. -/
def Unused (s : Server) (c : ConnId) : Prop :=
  (∀ x ∈ s.tasks, x.1 ≠ c) ∧ c ∉ s.flush.conns ∧ (∀ x ∈ s.fetched, s.connections x.1 ≠ some c) ∧
    ∀ u, s.push.findConnection u ≠ some c

/-- A descriptor is closed by the last thread that has its object, and its number is accepted again
after that thread has left `close_conn`. -/
def RetiresAlone (s : Server) : Action → Prop
  | .closeLoop => ∀ c, s.closing = some (c, .close) → s.Unused c ∧ ∀ x ∈ s.running, x.1 ≠ c
  | .work i _ => ∀ c, s.running[i]? = some (c, .closing .close) →
      s.Unused c ∧ (∀ x ∈ s.closing, x.1 ≠ c) ∧ ∀ x ∈ Threads.others s.running i, x.1 ≠ c
  | .accept fd => ∀ c, s.connections fd = some c → (c, .closing .quit) ∉ s.running
  | _ => True

/-- The invariant: whatever a thread has is live, except for an object that the thread itself has
just closed. -/
structure Sound (s : Server) : Prop where
  shared : s.toShared.Sound
  fetched : ∀ x ∈ s.fetched, s.isOpen x.1 = true
  closing : ∀ x ∈ s.closing, s.toShared.Retiring x.1 x.2
  tasks : ∀ x ∈ s.tasks, s.toShared.Live x.1
  running : ∀ x ∈ s.running, s.toShared.Busy x.1 x.2
  flush : ∀ c ∈ s.flush.conns, s.toShared.Live c

variable {cfg : ServerConfig} {s t : Server} {c : ConnId} {o : ConnObject} {fd : Fd}

theorem Sound.noneOutlived (h : s.Sound) : s.NoneOutlived := by
  rintro c (⟨x, hx, rfl⟩ | ⟨x, hx, rfl⟩ | hc)
  · exact (h.tasks x hx).1
  · exact (h.running x hx).exist
  · exact (h.flush c hc).1

theorem init_sound (hash : UInt64 → ℕ) : (init hash).Sound where
  shared :=
    { owner := by simp [init, Shared.fdOf]
      made := by simp [init]
      closed := by simp [init]
      registered := by simp [init]
      online := by simp [init] }
  fetched := by simp [init]
  closing := by simp [init]
  tasks := by simp [init]
  running := by simp [init]
  flush := by simp [init, Flush.conns]

theorem Sound.frame (h : s.Sound) {sh : Shared} (hf : Frame s.toShared sh) :
    ({ s with toShared := sh } : Server).Sound where
  shared := hf.sound h.shared
  fetched x hx := (congrFun hf.isOpen x.1).trans (h.fetched x hx)
  closing x hx := hf.retiring (h.closing x hx)
  tasks x hx := hf.live_iff.mpr (h.tasks x hx)
  running x hx := hf.busy (h.running x hx)
  flush c hc := hf.live_iff.mpr (h.flush c hc)

/-- The close of an object that nobody else has. -/
theorem Sound.close (h : s.Sound) (ho : s.conns[c]? = some o) (hc : c ∉ s.destroyed)
    (hclose : o.isClose = true) (hunused : s.Unused c) (hclosing : ∀ x ∈ s.closing, x.1 ≠ c)
    (hrunning : ∀ x ∈ s.running, x.1 ≠ c) :
    ({ s with toShared := s.toShared.closeFd o.fd } : Server).Sound := by
  obtain ⟨htasks, hflush, hfetched, honline⟩ := hunused
  have hlive : ∀ d, s.toShared.Live d → d ≠ c → (s.toShared.closeFd o.fd).Live d := fun d hd hne =>
    h.shared.live_closeFd (fdOf_eq ho) hc hd hne
  constructor
  · exact h.shared.closeFd ho hc hclose honline
  · intro x hx
    have hdiff : x.1 ≠ o.fd := by
      intro heq
      apply hfetched x hx
      rw [heq]
      exact (h.shared.owner o.fd c).mpr ⟨fdOf_eq ho, hc⟩
    exact (Function.update_of_ne hdiff ..).trans (h.fetched x hx)
  · intro x hx
    have hret := h.closing x hx
    exact ⟨hret.exist, fun hstage => hlive x.1 (hret.live hstage) (hclosing x hx), hret.marked⟩
  · exact fun x hx => hlive x.1 (h.tasks x hx) (htasks x hx)
  · intro x hx
    have hbusy := h.running x hx
    exact ⟨hbusy.exist, fun hjob => hlive x.1 (hbusy.live hjob) (hrunning x hx), hbusy.marked⟩
  · intro d hd
    refine hlive d (h.flush d hd) ?_
    rintro rfl
    exact hflush hd

theorem accept_sound (h : s.Sound)
    (ha : ∀ c, s.connections fd = some c → (c, .closing .quit) ∉ s.running)
    (ht : s.onAccept cfg fd = some t) : t.Sound := by
  unfold onAccept at ht
  split_ifs at ht with hcond
  · cases ht
    exact h
  · cases ht
    obtain ⟨hclosing, -, hfd⟩ := hcond
    have hadd : Added s.toShared (s.toShared.addClient cfg fd) fd := addClient_added h.shared hfd
    have hlive : ∀ c, s.toShared.Live c → (s.toShared.addClient cfg fd).Live c := fun c hc =>
      hadd.live h.shared hfd hc
    constructor
    · exact hadd.sound h.shared hfd
    · intro x hx
      by_cases hsame : x.1 = fd
      · exact Bool.false_ne_true (hfd.symm.trans (hsame ▸ h.fetched x hx)) |>.elim
      · exact (congrFun hadd.isOpen x.1).trans ((Function.update_of_ne hsame ..).trans (h.fetched x hx))
    · intro x hx
      rw [hclosing] at hx
      cases hx
    · exact fun x hx => hlive x.1 (h.tasks x hx)
    · intro x hx
      apply hadd.busy h.shared hfd (h.running x hx)
      -- the one holder of a closed object, which the condition keeps out
      intro hquit hold
      apply ha x.1 hold
      rw [← hquit]
      exact hx
    · exact fun c hc => hlive c (h.flush c hc)

theorem wait_sound (h : s.Sound) {ready : List (Fd × UInt32)} (ht : s.onWait ready = some t) :
    t.Sound := by
  unfold onWait at ht
  split_ifs at ht with hcond
  cases ht
  obtain ⟨-, -, -, hready⟩ := hcond
  have hreg : ∀ x ∈ ready, s.epoll x.1 ≠ none := by
    intro x hx hnone
    have hx := List.all_eq_true.mp hready x hx
    rw [Shared.ready, hnone] at hx
    cases hx
  have hf : Frame s.toShared
      { s.toShared with
        epoll := fun fd => if fd ∈ ready.map Prod.fst then some 0 else s.epoll fd } := by
    refine { Frame.refl s.toShared with registered := ?_ }
    intro fd hfd
    dsimp only at hfd
    split_ifs at hfd with hmem
    · obtain ⟨x, hx, rfl⟩ := List.mem_map.mp hmem
      exact hreg x hx
    · exact hfd
  exact { h.frame hf with fetched := fun x hx => h.shared.registered x.1 (hreg x hx) }

theorem Sound.live_of_open (h : s.Sound) (hc : s.connections fd = some c) (hfd : s.isOpen fd = true) :
    s.toShared.Live c := by
  obtain ⟨hfdOf, hnot⟩ := (h.shared.owner fd c).mp hc
  exact ⟨hnot, fd, hfdOf, hfd⟩

theorem retiring_delFd (hc : c ∉ s.destroyed) : s.toShared.Retiring c .delFd := by
  refine ⟨hc, ?_, ?_⟩ <;> intro hstage <;> simp at hstage

theorem dispatch_sound (h : s.Sound) (ht : s.onDispatch = some t) : t.Sound := by
  unfold onDispatch at ht
  split at ht
  · rename_i fd events rest hclosing hfetched
    obtain ⟨c, hc, rfl⟩ := Option.map_eq_some_iff.mp ht
    have hopen : s.isOpen fd = true := h.fetched (fd, events) (by simp [hfetched])
    have hlive := h.live_of_open hc hopen
    have hrest : ∀ x ∈ rest, s.isOpen x.1 = true := by
      intro x hx
      apply h.fetched x
      rw [hfetched]
      exact List.mem_cons_of_mem _ hx
    have htask : ∀ work, ∀ x ∈ s.tasks ++ [(c, work)], s.toShared.Live x.1 := by
      intro work x hx
      rcases List.mem_append.mp hx with hx | hx
      · exact h.tasks x hx
      · rw [List.mem_singleton.mp hx]
        exact hlive
    dsimp only
    split_ifs
    · refine { h with fetched := hrest, closing := ?_ }
      rintro x hx
      cases hx
      exact retiring_delFd hlive.1
    · exact { h with fetched := hrest, tasks := htask .read }
    · exact { h with fetched := hrest, tasks := htask .write }
    · exact { h with fetched := hrest }
  · cases ht

theorem expire_sound (h : s.Sound) (ht : s.onExpire fd = some t) : t.Sound := by
  unfold onExpire at ht
  split_ifs at ht
  split at ht
  · cases ht
    exact h.frame { Frame.refl s.toShared with }
  · rename_i c hc
    cases ht
    refine { h with closing := ?_ }
    rintro x hx
    cases hx
    exact retiring_delFd ((h.shared.owner fd c).mp hc).2

theorem closeLoop_sound (h : s.Sound) (ha : s.RetiresAlone .closeLoop)
    (ht : s.onCloseLoop cfg = some t) : t.Sound := by
  obtain ⟨⟨c, stage⟩, hx, rfl⟩ := Option.map_eq_some_iff.mp ht
  have hret := h.closing (c, stage) hx
  by_cases hstage : stage = .close
  · subst hstage
    obtain ⟨hunused, hrunning⟩ := ha c hx
    obtain ⟨-, fd, hfd, -⟩ := hret.live (.inr (.inr rfl))
    obtain ⟨o, ho, rfl⟩ := exists_of_fdOf hfd
    have heq : s.toShared.closeStep cfg c .close = (s.toShared.closeFd o.fd, some .quit) := by
      simp only [closeStep, ho]
    -- the event loop lets go of the object and is at its last line afterwards
    have hnone : ∀ x ∈ (none : Option (ConnId × Closing)), x.1 ≠ c := by simp
    have hleft : ({ s with closing := none } : Server).Sound := { h with closing := by simp }
    have hclosed := hleft.close ho hret.exist (hret.marked (.inr rfl) o ho) hunused hnone hrunning
    dsimp only
    rw [heq]
    refine { hclosed with closing := ?_ }
    rintro x hx
    cases hx
    exact ⟨hret.exist, by simp, by simp⟩
  · refine { h.frame (closeStep_frame s.toShared c hstage) with closing := ?_ }
    rintro x hx
    obtain ⟨next, hnext, rfl⟩ := Option.map_eq_some_iff.mp hx
    exact hret.closeStep h.shared hstage hnext

theorem take_sound (h : s.Sound) (ht : s.onTake cfg = some t) : t.Sound := by
  unfold onTake at ht
  split at ht
  · cases ht
  · rename_i c work rest htasks
    split_ifs at ht
    cases ht
    have hlive : s.toShared.Live c := h.tasks (c, work) (by simp [htasks])
    refine { h with tasks := ?_, running := ?_ }
    · intro x hx
      apply h.tasks x
      rw [htasks]
      exact List.mem_cons_of_mem _ hx
    · intro x hx
      rcases List.mem_append.mp hx with hx | hx
      · exact h.running x hx
      · rw [List.mem_singleton.mp hx]
        exact busy_of_live hlive fun _ => nofun

theorem work_sound (h : s.Sound) {i : ℕ} {ending : Ending} (ha : s.RetiresAlone (.work i ending))
    (ht : s.onWork cfg i ending = some t) : t.Sound := by
  obtain ⟨⟨c, job⟩, hi, rfl⟩ := Option.map_eq_some_iff.mp ht
  have hbusy := h.running (c, job) (List.mem_of_getElem? hi)
  by_cases hjob : job = .closing .close
  · subst hjob
    obtain ⟨hunused, hclosing, hothers⟩ := ha c hi
    obtain ⟨-, fd, hfd, -⟩ := hbusy.live (by simp)
    obtain ⟨o, ho, rfl⟩ := exists_of_fdOf hfd
    have heq : s.toShared.workStep cfg c ending (.closing .close) =
        (s.toShared.closeFd o.fd, some (.closing .quit)) := by
      simp only [workStep, closeStep, ho, Option.map_some]
    have hleft : ({ s with running := Threads.others s.running i } : Server).Sound :=
      { h with running := fun x hx => h.running x ((Threads.mem_iff hi).mpr (.inr hx)) }
    have hclosed := hleft.close ho hbusy.exist (hbusy.marked (.inr rfl) o ho) hunused hclosing hothers
    dsimp only
    rw [heq]
    refine { hclosed with running := ?_ }
    intro x (hx : x ∈ Threads.advance s.running i (some (c, .closing .quit)))
    rcases (Threads.mem_advance hi).mp hx with hx | hx
    · cases hx
      exact ⟨hbusy.exist, by simp, by simp⟩
    · exact hclosed.running x hx
  · have hf : Frame s.toShared (s.toShared.workStep cfg c ending job).1 :=
      workStep_frame s.toShared c ending hjob
    have hframe := h.frame hf
    refine { hframe with running := Threads.forall_mem_advance hi hframe.running ?_ }
    intro x hx
    obtain ⟨next, hnext, rfl⟩ := Option.map_eq_some_iff.mp hx
    exact hbusy.workStep hjob hnext

theorem login_sound (h : s.Sound) {i : ℕ} {user : UInt64} (ht : s.onLogin i user = some t) : t.Sound := by
  unfold onLogin at ht
  split at ht
  · rename_i c hi
    cases ht
    have hbusy := h.running (c, .work .process) (List.mem_of_getElem? hi)
    exact h.frame (setUserId_frame (hbusy.live (by simp)) user)
  · cases ht

/-- The push queue has user ids, and no pointers. -/
theorem Sound.queue (h : s.Sound) (items : List PushItem) :
    ({ s with push.pushQueue := items } : Server).Sound :=
  h.frame { Frame.refl s.toShared with }

theorem push_sound (h : s.Sound) (user : UInt64) (data : Bytes) :
    ({ s with push := (s.push.enqueueSerialized user data).2 } : Server).Sound := by
  unfold PushService.enqueueSerialized
  split_ifs
  · exact h
  · exact h.queue _

theorem Sound.flush_of_eq (h : s.Sound) {f : Flush} (hflush : s.flush = f) :
    ∀ c ∈ f.conns, s.toShared.Live c :=
  hflush ▸ h.flush

theorem flush_sound (h : s.Sound) {i : ℕ} (ht : s.onFlush cfg i = some t) : t.Sound := by
  unfold onFlush at ht
  split at ht
  · dsimp only at ht
    split_ifs at ht
    cases ht
    exact { h.queue _ with flush := fun _ => nofun }
  · rename_i batches hflush
    cases ht
    have hold : ∀ c ∈ batches.map Prod.fst, s.toShared.Live c := h.flush_of_eq hflush
    exact { h with flush := hold }
  · rename_i item items batches hflush
    have hold : ∀ c ∈ batches.map Prod.fst, s.toShared.Live c := h.flush_of_eq hflush
    split at ht
    · cases ht
      exact { h with flush := hold }
    · rename_i c hfind
      cases ht
      refine { h with flush := ?_ }
      intro d hd
      rcases PushService.mem_pushBack hd with rfl | hd
      · exact h.shared.online item.userId d hfind
      · exact hold d hd
  · cases ht
    exact { h with flush := fun _ => nofun }
  · rename_i batches _ hflush
    obtain ⟨⟨c, messages⟩, hi, ht⟩ := Option.bind_eq_some_iff.mp ht
    obtain ⟨o, -, rfl⟩ := Option.map_eq_some_iff.mp ht
    have hold : ∀ d ∈ batches.map Prod.fst, s.toShared.Live d := h.flush_of_eq hflush
    have hc := hold c (List.mem_map.mpr ⟨_, List.mem_of_getElem? hi, rfl⟩)
    have hrest : ∀ d ∈ (batches.eraseIdx i).map Prod.fst, s.toShared.Live d := by
      intro d hd
      obtain ⟨x, hx, rfl⟩ := List.mem_map.mp hd
      exact hold x.1 (List.mem_map_of_mem (List.mem_of_mem_eraseIdx hx))
    refine { h with flush := ?_ }
    dsimp only
    split_ifs
    · exact hrest
    · exact List.forall_mem_cons.mpr ⟨hc, hrest⟩
  · rename_i c call batches hflush
    cases ht
    have hf : Frame s.toShared (s.toShared.callStep cfg c call).1 := callStep_frame s.toShared c call
    have hframe := h.frame hf
    refine { hframe with flush := ?_ }
    intro d hd
    have hmem : d ∈ s.flush.conns := by
      rw [hflush]
      dsimp only at hd
      split at hd
      · exact List.mem_cons_of_mem _ hd
      · exact hd
    exact hframe.flush d hmem

variable (cfg)

/-- In every run in which descriptors are closed by the last thread that has their object, and are
accepted again after that thread has left, no task and no batch has an object that was destroyed. -/
theorem none_outlived_along (hash : UInt64 → ℕ) (as : List Action)
    (h : Steps.Meets (step cfg) RetiresAlone (init hash) as) :
    Steps.Along (step cfg) NoneOutlived (init hash) as := by
  refine Steps.along_of_meets (I := Sound) ?_ (fun s => Sound.noneOutlived) (init_sound hash) h
  intro s a t hs ha ht
  cases a with
  | accept fd => exact accept_sound hs ha ht
  | wait ready => exact wait_sound hs ht
  | dispatch => exact dispatch_sound hs ht
  | expire fd => exact expire_sound hs ht
  | closeLoop => exact closeLoop_sound hs ha ht
  | take => exact take_sound hs ht
  | work i ending => exact work_sound hs ha ht
  | login i user => exact login_sound hs ht
  | push user data =>
    cases ht
    exact push_sound hs user data
  | flush i => exact flush_sound hs ht

/-- Edge-triggered, with a timeout of a minute and eight workers. -/
def sampleConfig : ServerConfig := ⟨true, 60000, 8⟩

/-- A client on descriptor 5 sends a part of a request. -/
def partialRequest : List Action :=
  [.accept 5, .wait [(5, epollIn)], .dispatch, .take, .work 0 {}, .work 0 {}, .work 0 {}, .work 0 {}]

def hangUp : List Action :=
  [.wait [(5, epollRdHup)], .dispatch, .closeLoop, .closeLoop, .closeLoop, .closeLoop, .closeLoop,
    .closeLoop, .closeLoop, .accept 5]

theorem meets_hangUp :
    Steps.Meets (step sampleConfig) RetiresAlone (init UInt64.toNat) (partialRequest ++ hangUp) := by
  refine (Steps.meets_cons rfl).mpr ⟨fun _ => nofun, ?_⟩
  iterate 3 refine (Steps.meets_cons rfl).mpr ⟨trivial, ?_⟩
  iterate 4 refine (Steps.meets_cons rfl).mpr ⟨fun _ => nofun, ?_⟩
  iterate 2 refine (Steps.meets_cons rfl).mpr ⟨trivial, ?_⟩
  iterate 5 refine (Steps.meets_cons rfl).mpr ⟨fun _ => nofun, ?_⟩
  -- the task is over when the event loop closes the descriptor
  refine (Steps.meets_cons rfl).mpr ⟨fun c hc => ?_, ?_⟩
  · exact ⟨⟨fun _ => nofun, nofun, fun _ => nofun, fun _ => nofun⟩, fun _ => nofun⟩
  refine (Steps.meets_cons rfl).mpr ⟨fun _ => nofun, ?_⟩
  exact (Steps.meets_cons rfl).mpr ⟨fun _ _ => nofun, trivial⟩

theorem none_outlived_hangUp :
    Steps.Along (step sampleConfig) NoneOutlived (init UInt64.toNat) (partialRequest ++ hangUp) ∧
      ∃ s, Steps.run (step sampleConfig) (init UInt64.toNat) (partialRequest ++ hangUp) = some s ∧
        s.destroyed = [0] :=
  ⟨none_outlived_along sampleConfig UInt64.toNat _ meets_hangUp, _, rfl, rfl⟩

def login : List Action :=
  [.accept 5, .wait [(5, epollIn)], .dispatch, .take, .work 0 {}, .login 0 1,
    .work 0 { more := true }, .work 0 {}, .work 0 {}, .wait [(5, epollOut)], .dispatch]

/-- A push to the user, which arms the descriptor again. -/
def rearm : List Action := .push 1 [7] :: List.replicate 9 (.flush 0)

/-- The task that writes the answer waits in the queue, and so nothing of the connection is armed.
A push arms it again, the hang-up of the client is delivered, and the next client gets the number:
the task has a pointer to an object that does not exist any more. -/
theorem queued_task_outlives_object :
    ∃ s, Steps.run (step sampleConfig) (init UInt64.toNat) (login ++ rearm ++ hangUp) = some s ∧
      s.tasks = [(0, .write)] ∧ s.destroyed = [0] ∧ ¬ s.NoneOutlived := by
  refine ⟨_, rfl, rfl, rfl, ?_⟩
  intro h
  exact h 0 (.inl ⟨(0, .write), List.mem_singleton_self _, rfl⟩) (List.mem_singleton_self _)

end Server
end TermChat
