import TermChat.Core.Reactor

/-! What the threads of the server share: which objects `connections_` owns, which descriptors are
open, and what the epoll set and the push registry refer to. Of all steps, only `close` ends the use
of a descriptor, and only `AddClient_` makes and destroys objects. -/
namespace TermChat
open Proto

namespace Shared

def fdOf (s : Shared) (c : ConnId) : Option Fd := (s.conns.map ConnObject.fd)[c]?

def Live (s : Shared) (c : ConnId) : Prop :=
  c ∉ s.destroyed ∧ ∃ fd, s.fdOf c = some fd ∧ s.isOpen fd = true

/-- What the threads share is in order: `connections_` has exactly the objects that exist, an object
whose descriptor is closed says so, and the epoll set and the push registry are about open
descriptors only. -/
structure Sound (s : Shared) : Prop where
  owner : ∀ fd c, s.connections fd = some c ↔ s.fdOf c = some fd ∧ c ∉ s.destroyed
  made : ∀ c ∈ s.destroyed, c < s.conns.length
  closed : ∀ (c : ConnId) (o : ConnObject), s.conns[c]? = some o → c ∉ s.destroyed →
    s.isOpen o.fd = false → o.isClose = true
  registered : ∀ fd, s.epoll fd ≠ none → s.isOpen fd = true
  online : ∀ u c, s.push.findConnection u = some c → s.Live c

/-- A step that neither makes nor destroys an object nor closes a descriptor. -/
structure Frame (s t : Shared) : Prop where
  isOpen : t.isOpen = s.isOpen
  connections : t.connections = s.connections
  destroyed : t.destroyed = s.destroyed
  fds : t.conns.map ConnObject.fd = s.conns.map ConnObject.fd
  opened : ∀ (c : ConnId) (o : ConnObject), t.conns[c]? = some o → o.isClose = false →
    ∃ o', s.conns[c]? = some o' ∧ o'.isClose = false
  registered : ∀ fd, t.epoll fd ≠ none → s.epoll fd ≠ none
  online : ∀ u c, t.push.findConnection u = some c → s.push.findConnection u = some c ∨ s.Live c

variable {cfg : ServerConfig} {s t : Shared} {c d : ConnId} {o : ConnObject} {fd : Fd}

theorem fdOf_eq (h : s.conns[c]? = some o) : s.fdOf c = some o.fd := by
  rw [fdOf, List.getElem?_map, h, Option.map_some]

theorem exists_of_fdOf (h : s.fdOf c = some fd) : ∃ o, s.conns[c]? = some o ∧ o.fd = fd := by
  rw [fdOf, List.getElem?_map] at h
  exact Option.map_eq_some_iff.mp h

theorem lt_of_fdOf (hc : s.fdOf c = some fd) : c < s.conns.length := by
  obtain ⟨o, ho, -⟩ := exists_of_fdOf hc
  exact (List.getElem?_eq_some_iff.mp ho).1

theorem Frame.live_iff (hf : Frame s t) : t.Live c ↔ s.Live c := by
  rw [Live, Live, fdOf, fdOf, hf.fds, hf.isOpen, hf.destroyed]

theorem Frame.sound (hf : Frame s t) (h : s.Sound) : t.Sound where
  owner fd c := by
    rw [fdOf, hf.connections, hf.destroyed, hf.fds]
    exact h.owner fd c
  made c hc := by
    have hlength := congrArg List.length hf.fds
    rw [List.length_map, List.length_map] at hlength
    rw [hf.destroyed] at hc
    rw [hlength]
    exact h.made c hc
  closed c o hc hd hfd := by
    rw [hf.destroyed] at hd
    rw [hf.isOpen] at hfd
    by_contra hopen
    obtain ⟨o', hc', ho'⟩ := hf.opened c o hc (Bool.eq_false_iff.mpr hopen)
    have hsame : o.fd = o'.fd := by
      have hmap := congrArg (fun l => l[c]?) hf.fds
      simp only [List.getElem?_map, hc, hc', Option.map_some, Option.some.injEq] at hmap
      exact hmap
    rw [hsame] at hfd
    exact Bool.false_ne_true (ho'.symm.trans (h.closed c o' hc' hd hfd))
  registered fd hfd := by
    rw [hf.isOpen]
    exact h.registered fd (hf.registered fd hfd)
  online u c hc := by
    rw [hf.live_iff]
    exact (hf.online u c hc).elim (h.online u c) id

theorem Frame.refl (s : Shared) : Frame s s :=
  ⟨rfl, rfl, rfl, rfl, fun _ o hc ho => ⟨o, hc, ho⟩, fun _ h => h, fun _ _ h => .inl h⟩

theorem update_frame (s : Shared) (c : ConnId) {f : ConnObject → ConnObject} (hfd : ∀ o, (f o).fd = o.fd)
    (hclose : ∀ o, (f o).isClose = false → o.isClose = false) : Frame s (s.update c f) := by
  have hfds : (s.conns.modify c f).map ConnObject.fd = s.conns.map ConnObject.fd := by
    apply List.ext_getElem?
    intro d
    rw [List.getElem?_map, List.getElem?_map, List.getElem?_modify]
    cases s.conns[d]? with
    | none => rfl
    | some o =>
      by_cases hcd : c = d
      · simp [hcd, hfd]
      · simp [hcd]
  refine ⟨rfl, rfl, rfl, hfds, ?_, fun _ h => h, fun _ _ h => .inl h⟩
  intro d o hd ho
  rw [update, List.getElem?_modify] at hd
  obtain ⟨o', ho', rfl⟩ := Option.map_eq_some_iff.mp hd
  refine ⟨o', ho', ?_⟩
  by_cases hcd : c = d
  · simp only [hcd, if_pos] at ho
    exact hclose o' ho
  · simpa [hcd] using ho

theorem delFd_frame (s : Shared) (fd : Fd) : Frame s (s.delFd fd) := by
  refine { Frame.refl s with registered := ?_ }
  intro fd' h hnone
  apply h
  by_cases hfd : fd' = fd
  · rw [hfd]
    exact Function.update_self ..
  · rw [← hnone]
    exact Function.update_of_ne hfd ..

theorem modFd_frame (s : Shared) (fd : Fd) (events : UInt32) : Frame s (s.modFd fd events).2 := by
  unfold modFd
  split_ifs with hfd
  · exact Frame.refl s
  · refine { Frame.refl s with registered := ?_ }
    intro fd' h
    by_cases heq : fd' = fd
    · rw [heq]
      exact hfd
    · exact fun hnone => h ((Function.update_of_ne heq ..).trans hnone)

/-- Only its `close` stage takes `CloseConn_` out of the frame. -/
theorem closeStep_frame (s : Shared) (c : ConnId) {stage : Closing} (hstage : stage ≠ .close) :
    Frame s (s.closeStep cfg c stage).1 := by
  unfold closeStep
  cases s.conns[c]? with
  | none => exact Frame.refl s
  | some o =>
    cases stage with
    | delFd => exact delFd_frame s o.fd
    | removeTimer => exact { Frame.refl s with }
    | test | quit => exact Frame.refl s
    | mark =>
      have hmark := update_frame s c (f := fun o => { o with isClose := true }) (fun _ => rfl) (fun _ => nofun)
      exact { hmark with }
    | removeClient =>
      dsimp only
      split_ifs
      · refine { Frame.refl s with online := ?_ }
        intro u d h
        rw [PushService.findConnection_removeClient] at h
        split_ifs at h
        exact .inl h
      · exact Frame.refl s
    | close => exact absurd rfl hstage

theorem workStep_frame (s : Shared) (c : ConnId) (ending : Ending) {job : Job}
    (hjob : job ≠ .closing .close) : Frame s (s.workStep cfg c ending job).1 := by
  unfold workStep
  cases s.conns[c]? with
  | none => exact Frame.refl s
  | some o =>
    cases job with
    | closing stage => exact closeStep_frame s c fun h => hjob (congrArg Job.closing h)
    | work work =>
      cases work with
      | read | process => exact Frame.refl s
      | write => exact update_frame s c (fun _ => rfl) (fun _ h => h)
      | toWriteBytes =>
        dsimp only
        split_ifs <;> exact Frame.refl s
      | modFd events => exact modFd_frame s o.fd events
      | updateEvents events => exact update_frame s c (fun _ => rfl) (fun _ h => h)

theorem callStep_frame (s : Shared) (c : ConnId) (call : Call) : Frame s (s.callStep cfg c call).1 := by
  unfold callStep
  cases s.conns[c]? with
  | none => exact Frame.refl s
  | some o =>
    cases call with
    | enqueueing messages notify =>
      cases messages with
      | nil => exact Frame.refl s
      | cons data messages =>
        dsimp only
        split_ifs
        · exact Frame.refl s
        · exact update_frame s c (fun _ => rfl) (fun _ h => h)
    | checkEvents => exact Frame.refl s
    | modFd => exact modFd_frame s o.fd _
    | storeEvents => exact update_frame s c (fun _ => rfl) (fun _ h => h)

theorem setUserId_frame (hlive : s.Live c) (user : UInt64) : Frame s (s.setUserId c user) := by
  have hupdate := update_frame s c (f := fun o => { o with userId := user }) (fun _ => rfl) (fun _ h => h)
  refine { hupdate with online := ?_ }
  intro u d h
  rw [setUserId, PushService.findConnection_addClient] at h
  split_ifs at h
  · cases h
    exact .inr hlive
  · exact .inl h

/-- An object that is left open by the close of another one. -/
theorem Sound.live_closeFd (h : s.Sound) (hfd : s.fdOf c = some fd) (hc : c ∉ s.destroyed)
    (hd : s.Live d) (hne : d ≠ c) : (s.closeFd fd).Live d := by
  obtain ⟨hnot, fd', hfd', hopen⟩ := hd
  refine ⟨hnot, fd', hfd', ?_⟩
  have hdiff : fd' ≠ fd := by
    intro heq
    have howner := (h.owner fd' d).mpr ⟨hfd', hnot⟩
    rw [heq, (h.owner fd c).mpr ⟨hfd, hc⟩] at howner
    exact hne (Option.some.inj howner).symm
  exact (Function.update_of_ne hdiff ..).trans hopen

theorem Sound.closeFd (h : s.Sound) (ho : s.conns[c]? = some o) (hc : c ∉ s.destroyed)
    (hclose : o.isClose = true) (honline : ∀ u, s.push.findConnection u ≠ some c) :
    (s.closeFd o.fd).Sound where
  owner := h.owner
  made := h.made
  closed d o' hd hnot hfd := by
    by_cases hsame : o'.fd = o.fd
    · have hd' := (h.owner o'.fd d).mpr ⟨fdOf_eq hd, hnot⟩
      rw [hsame, (h.owner o.fd c).mpr ⟨fdOf_eq ho, hc⟩] at hd'
      obtain rfl := Option.some.inj hd'
      obtain rfl := Option.some.inj (ho.symm.trans hd)
      exact hclose
    · exact h.closed d o' hd hnot ((Function.update_of_ne hsame ..).symm.trans hfd)
  registered fd hfd := by
    have hdiff : fd ≠ o.fd := by
      rintro rfl
      exact hfd (Function.update_self ..)
    refine (Function.update_of_ne hdiff ..).trans (h.registered fd ?_)
    exact fun hnone => hfd ((Function.update_of_ne hdiff ..).trans hnone)
  online u d hd := by
    refine h.live_closeFd (fdOf_eq ho) hc (h.online u d hd) ?_
    rintro rfl
    exact honline u hd

/-- The destructor finds a closed object closed. -/
theorem destroy_of_closed (ho : s.conns[c]? = some o) (hclose : o.isClose = true) :
    s.destroy cfg c = { s with destroyed := s.destroyed ++ [c] } := by
  simp only [destroy, Threads.finish, closeStep, ho, hclose, if_pos]

private theorem setConnection_eq (hclosed : ∀ old, s.connections fd = some old →
      ∃ o, s.conns[old]? = some o ∧ o.isClose = true) :
    s.setConnection cfg fd c =
      { s with
        connections := Function.update s.connections fd (some c)
        destroyed := s.destroyed ++ (s.connections fd).toList } := by
  unfold setConnection
  cases hold : s.connections fd with
  | none => simp
  | some old =>
    obtain ⟨o, ho, hclose⟩ := hclosed old hold
    exact destroy_of_closed ho hclose

/-- What `AddClient_` does: a new object, and the end of the one that had the number. -/
structure Added (s t : Shared) (fd : Fd) : Prop where
  isOpen : t.isOpen = Function.update s.isOpen fd true
  connections : t.connections = Function.update s.connections fd (some s.conns.length)
  destroyed : t.destroyed = s.destroyed ++ (s.connections fd).toList
  conns : ∃ o : ConnObject, o.fd = fd ∧ t.conns = s.conns ++ [o]
  registered : ∀ fd', t.epoll fd' ≠ none → fd' = fd ∨ s.epoll fd' ≠ none
  push : t.push = s.push

theorem addClient_added (h : s.Sound) (hfd : s.isOpen fd = false) : Added s (s.addClient cfg fd) fd := by
  have hepoll : s.epoll fd = none := by
    by_contra hreg
    exact Bool.false_ne_true (hfd.symm.trans (h.registered fd hreg))
  have hclosed : ∀ old, s.connections fd = some old →
      ∃ o, (s.conns ++ [({ fd := fd } : ConnObject)])[old]? = some o ∧ o.isClose = true := by
    intro old hold
    obtain ⟨hfdOf, hnot⟩ := (h.owner fd old).mp hold
    obtain ⟨o, ho, rfl⟩ := exists_of_fdOf hfdOf
    have hlt := (List.getElem?_eq_some_iff.mp ho).1
    exact ⟨o, (List.getElem?_append_left hlt).trans ho, h.closed old o ho hnot hfd⟩
  have hmodify (f : ConnObject → ConnObject) (o : ConnObject) (l : List ConnObject) :
      (l ++ [o]).modify l.length f = l ++ [f o] := by
    induction l with
    | nil => rfl
    | cons x l ih => exact congrArg (x :: ·) ih
  simp only [addClient]
  rw [setConnection_eq hclosed]
  simp only [addFd, hepoll, Function.update_self, and_self, if_true, update, hmodify]
  refine ⟨rfl, rfl, rfl, ⟨_, rfl, rfl⟩, ?_, rfl⟩
  intro fd' hreg
  by_cases hsame : fd' = fd
  · exact .inl hsame
  · exact .inr fun hnone => hreg ((Function.update_of_ne hsame ..).trans hnone)

theorem Added.fdOf (ha : Added s t fd) (c : ConnId) :
    t.fdOf c = if c = s.conns.length then some fd else s.fdOf c := by
  obtain ⟨o, rfl, hconns⟩ := ha.conns
  rw [Shared.fdOf, Shared.fdOf, hconns, List.map_append, List.map_singleton]
  split_ifs with hc
  · rw [hc, ← List.length_map ConnObject.fd]
    exact List.getElem?_concat_length
  · rw [List.getElem?_append, List.length_map]
    split_ifs with hlt
    · rfl
    · have hbeyond : s.conns.length ≤ c := not_lt.mp hlt
      have hpos : 1 ≤ c - s.conns.length := Nat.sub_pos_of_lt (lt_of_le_of_ne hbeyond (Ne.symm hc))
      rw [List.getElem?_eq_none (by simpa using hpos), List.getElem?_eq_none (by simpa using hbeyond)]

theorem Sound.notMem_old (h : s.Sound) (hfd : s.isOpen fd = false) (hc : s.Live c) :
    c ∉ (s.connections fd).toList := by
  intro hmem
  obtain ⟨-, fd', hfd', hopen⟩ := hc
  rw [((h.owner fd c).mp (Option.mem_toList.mp hmem)).1] at hfd'
  cases hfd'
  exact Bool.false_ne_true (hfd.symm.trans hopen)

theorem Added.live (ha : Added s t fd) (h : s.Sound) (hfd : s.isOpen fd = false) (hc : s.Live c) :
    t.Live c := by
  have hold := h.notMem_old hfd hc
  obtain ⟨hnot, fd', hfd', hopen⟩ := hc
  have hdiff : fd' ≠ fd := by
    rintro rfl
    exact Bool.false_ne_true (hfd.symm.trans hopen)
  refine ⟨?_, fd', ?_, ?_⟩
  · rw [ha.destroyed, List.mem_append, not_or]
    exact ⟨hnot, hold⟩
  · rw [ha.fdOf, if_neg (lt_of_fdOf hfd').ne]
    exact hfd'
  · rw [ha.isOpen, Function.update_of_ne hdiff]
    exact hopen

/-- The number belongs to the new object, and to no other one that exists. -/
theorem Added.owner (ha : Added s t fd) (h : s.Sound) (fd' : Fd) (c : ConnId) :
    t.connections fd' = some c ↔ t.fdOf c = some fd' ∧ c ∉ t.destroyed := by
  have hnew : s.conns.length ∉ t.destroyed := by
    rw [ha.destroyed, List.mem_append, not_or]
    refine ⟨fun hmem => (h.made _ hmem).false, fun hmem => ?_⟩
    have hold := (h.owner fd _).mp (Option.mem_toList.mp hmem)
    exact (lt_of_fdOf hold.1).false
  rw [ha.connections, ha.fdOf]
  by_cases hc : c = s.conns.length
  · subst hc
    rw [if_pos rfl]
    by_cases hsame : fd' = fd
    · subst hsame
      simp [hnew]
    · have hother : s.connections fd' ≠ some s.conns.length := fun hown =>
        (lt_of_fdOf ((h.owner fd' _).mp hown).1).false
      rw [Function.update_of_ne hsame]
      exact iff_of_false hother fun hboth => hsame (Option.some.inj hboth.1).symm
  · rw [if_neg hc, ha.destroyed, List.mem_append, not_or, ← and_assoc, ← h.owner fd' c,
      Option.mem_toList]
    by_cases hsame : fd' = fd
    · subst hsame
      rw [Function.update_self, Option.some.injEq]
      exact iff_of_false (Ne.symm hc) fun hboth => hboth.2 hboth.1
    · rw [Function.update_of_ne hsame]
      refine ⟨fun hown => ⟨hown, fun hold => hsame ?_⟩, And.left⟩
      exact Option.some.inj (((h.owner fd' c).mp hown).1.symm.trans ((h.owner fd c).mp hold).1)

theorem Added.sound (ha : Added s t fd) (h : s.Sound) (hfd : s.isOpen fd = false) : t.Sound where
  owner := ha.owner h
  made c hc := by
    obtain ⟨o, -, hconns⟩ := ha.conns
    rw [hconns, List.length_append, List.length_singleton]
    rw [ha.destroyed, List.mem_append] at hc
    rcases hc with hc | hc
    · exact (h.made c hc).trans (Nat.lt_succ_self _)
    · have hold := (h.owner fd c).mp (Option.mem_toList.mp hc)
      exact (lt_of_fdOf hold.1).trans (Nat.lt_succ_self _)
  closed c o hc hnot hclosed := by
    have hfdc := fdOf_eq hc
    rw [ha.isOpen] at hclosed
    have hdiff : o.fd ≠ fd := by
      intro heq
      rw [heq, Function.update_self] at hclosed
      cases hclosed
    rw [Function.update_of_ne hdiff] at hclosed
    rw [ha.fdOf] at hfdc
    have hne : c ≠ s.conns.length := by
      intro heq
      rw [if_pos heq] at hfdc
      exact hdiff (Option.some.inj hfdc).symm
    rw [if_neg hne] at hfdc
    obtain ⟨o', -, hconns⟩ := ha.conns
    rw [hconns, List.getElem?_append_left (lt_of_fdOf hfdc)] at hc
    rw [ha.destroyed, List.mem_append, not_or] at hnot
    exact h.closed c o hc hnot.1 hclosed
  registered fd' hreg := by
    rw [ha.isOpen]
    by_cases hsame : fd' = fd
    · rw [hsame, Function.update_self]
    · rw [Function.update_of_ne hsame]
      exact h.registered fd' ((ha.registered fd' hreg).resolve_left hsame)
  online u c hc := by
    rw [ha.push] at hc
    exact ha.live h hfd (h.online u c hc)

end Shared
end TermChat
