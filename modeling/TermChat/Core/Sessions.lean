import TermChat.Base.Steps
import TermChat.Service.Push
import TermChat.Service.Auth

/-! Connections, logins and the push registry over whole runs. `set_user_id`,
`close_conn`, `add_client` and `remove_client` update the two halves of one relation:
the `user_id_` of each connection and the connection registered for each user. -/
namespace TermChat
open Proto

/-- The part of a `TcpConnection` that the registry depends on. -/
structure Session where
  isClose : Bool
  userId : UInt64
  deriving DecidableEq, Repr

/-- All connection objects ever accepted, in the order of acceptance, with the push
service. `logins` is a log of the successful logins, oldest first; no code reads it. -/
structure Sessions where
  conns : List Session
  push : PushService
  logins : List (ConnId × UInt64)

namespace Sessions

def init (hash : UInt64 → ℕ) : Sessions := ⟨[], .init hash, []⟩

/-- `AddClient_` on a fresh object: `TcpConnection::init`. -/
def accept (h : Sessions) : Sessions := { h with conns := h.conns ++ [⟨false, 0⟩] }

def setUserId (h : Sessions) (c : ConnId) (u : UInt64) : Sessions :=
  { conns := h.conns.modify c fun s => { s with userId := u }
    push := h.push.addClient u c
    logins := h.logins ++ [(c, u)] }

def closeConn (h : Sessions) (c : ConnId) (s : Session) : Sessions :=
  if s.isClose then h
  else
    { h with
      conns := h.conns.modify c fun s => { s with isClose := true }
      push := if s.userId ≠ 0 then h.push.removeClient s.userId else h.push }

/-- A login request carries the state of the user table and the outcome of its queries. -/
inductive Action where
  | accept
  | login (c : ConnId) (db : UserTable) (q : LoginQueries) (req : LoginReq)
  | close (c : ConnId)

variable (createToken : UInt64 → String → String)

def step (h : Sessions) : Action → Option Sessions
  | .accept => some h.accept
  | .login c db q req =>
    (h.conns[c]?).map fun _ =>
      match (userLogin createToken db q req).2 with
      | none => h
      | some u => h.setUserId c u
  | .close c => (h.conns[c]?).map (h.closeConn c)

def LoggedInAs (h : Sessions) (c : ConnId) (u : UInt64) : Prop :=
  h.conns[c]? = some ⟨false, u⟩

theorem loggedInAs_of_open {h : Sessions} {c : ConnId} {s : Session} (hc : h.conns[c]? = some s)
    (ho : s.isClose = false) : h.LoggedInAs c s.userId := by
  rw [LoggedInAs, hc, ← ho]

/-- Every registered connection is open and logged in as the user it is registered for. -/
def RegistrySound (h : Sessions) : Prop :=
  ∀ u c, h.push.findConnection u = some c → h.LoggedInAs c u

/-- Whatever is queued, `FlushPending` hands each push to a connection of its user. -/
def FlushSound (h : Sessions) : Prop :=
  ∀ items item c, (item, c) ∈ h.push.targets items → h.LoggedInAs c item.userId

/-- A login finds its connection open and not registered for another user; a connection
with `user_id_` 0 is closed only when user 0 is not registered on it. -/
def KeepsRegistry (h : Sessions) : Action → Prop
  | .accept => True
  | .login c db q req => ∀ s u, h.conns[c]? = some s → (userLogin createToken db q req).2 = some u →
      s.isClose = false ∧ (s.userId = u ∨ h.push.findConnection s.userId ≠ some c)
  | .close c => h.conns[c]? = some ⟨false, 0⟩ → h.push.findConnection 0 ≠ some c

theorem RegistrySound.flush {h : Sessions} (hs : h.RegistrySound) : h.FlushSound := by
  intro items item c hm
  exact hs _ _ (PushService.mem_targets.mp hm).2

theorem setUserId_sound_iff {h : Sessions} (hs : h.RegistrySound) {c : ConnId} {s : Session}
    (hc : h.conns[c]? = some s) (u : UInt64) :
    (h.setUserId c u).RegistrySound ↔
      s.isClose = false ∧ (s.userId = u ∨ h.push.findConnection s.userId ≠ some c) := by
  simp only [RegistrySound, LoggedInAs, setUserId, PushService.findConnection_addClient,
    List.getElem?_modify]
  constructor
  · intro hn
    have ho := hn u c (by simp)
    simp only [hc, Option.map_eq_map, Option.map_some, if_pos, Option.some.injEq, Session.mk.injEq] at ho
    refine ⟨ho.1, ?_⟩
    by_contra hcon
    obtain ⟨hne, hreg⟩ := not_or.mp hcon
    have hx := hn s.userId c (by rw [if_neg hne]; exact not_not.mp hreg)
    simp only [hc, Option.map_eq_map, Option.map_some, if_pos, Option.some.injEq, Session.mk.injEq] at hx
    exact hne hx.2.symm
  · rintro ⟨ho, hu⟩ v d hv
    by_cases hvu : v = u
    · subst hvu
      obtain rfl : c = d := by simpa using hv
      simp [hc, ho]
    · rw [if_neg hvu] at hv
      have hd := hs v d hv
      unfold LoggedInAs at hd
      have hcd : c ≠ d := by
        rintro rfl
        obtain rfl := Option.some.inj (hc.symm.trans hd)
        exact hu.elim hvu (fun hne => hne hv)
      simp [hcd, hd]

theorem closeConn_sound_iff {h : Sessions} (hs : h.RegistrySound) {c : ConnId} {s : Session}
    (hc : h.conns[c]? = some s) :
    (h.closeConn c s).RegistrySound ↔ (s = ⟨false, 0⟩ → h.push.findConnection 0 ≠ some c) := by
  unfold closeConn
  split_ifs with hcl hu
  · refine iff_of_true hs ?_
    rintro rfl
    cases hcl
  · refine iff_of_true ?_ (fun h0 => absurd (by rw [h0]) hu)
    intro v d hv
    rw [PushService.findConnection_removeClient] at hv
    split_ifs at hv with hvu
    have hd := hs v d hv
    unfold LoggedInAs at hd ⊢
    have hcd : c ≠ d := by
      rintro rfl
      obtain rfl := Option.some.inj (hc.symm.trans hd)
      exact hvu rfl
    simp [hcd, hd]
  · have h0 : s = ⟨false, 0⟩ := by
      rcases s with ⟨cl, u⟩
      simp only [ne_eq, not_not, Bool.not_eq_true] at hu hcl
      rw [hu, hcl]
    subst h0
    simp only [RegistrySound, LoggedInAs, List.getElem?_modify, forall_const]
    constructor
    · intro hn hreg
      have := hn 0 c hreg
      simp [hc] at this
    · intro hreg v d hv
      have hd := hs v d hv
      unfold LoggedInAs at hd
      have hcd : c ≠ d := by
        rintro rfl
        rw [hc] at hd
        cases hd
        exact hreg hv
      simp [hcd, hd]

theorem accept_sound_iff (h : Sessions) (hs : h.RegistrySound) : h.accept.RegistrySound := by
  intro u c hc
  have hd := hs u c hc
  unfold LoggedInAs at hd ⊢
  exact List.getElem?_append_left (List.getElem?_eq_some_iff.mp hd).1 ▸ hd

/-- One step keeps the registry sound exactly when it meets the condition. -/
theorem step_sound_iff {h t : Sessions} {a : Action} (hs : h.RegistrySound)
    (ht : step createToken h a = some t) :
    t.RegistrySound ↔ KeepsRegistry createToken h a := by
  cases a with
  | accept =>
    cases ht
    exact iff_of_true (accept_sound_iff h hs) trivial
  | login c db q req =>
    obtain ⟨s, hc, rfl⟩ := Option.map_eq_some_iff.mp ht
    simp only [KeepsRegistry, hc, Option.some.injEq]
    cases hu : (userLogin createToken db q req).2 with
    | none => simpa using hs
    | some u => simpa using setUserId_sound_iff hs hc u
  | close c =>
    obtain ⟨s, hc, rfl⟩ := Option.map_eq_some_iff.mp ht
    simpa [KeepsRegistry, hc] using closeConn_sound_iff hs hc

theorem init_sound (hash : UInt64 → ℕ) : (init hash).RegistrySound := by
  intro u c hc
  simp [init] at hc

theorem keepsRegistry_of_disabled {h : Sessions} {a : Action} (ha : step createToken h a = none) :
    KeepsRegistry createToken h a := by
  cases a with
  | accept => trivial
  | login c db q req =>
    intro s u hc
    simp [step, hc] at ha
  | close c =>
    intro hc
    simp [step, hc] at ha

/-- In a run, the registry is sound in every state, and every flush with it, exactly when
every login and every close of the run meets `KeepsRegistry`. -/
theorem registry_sound_along_iff (hash : UInt64 → ℕ) (as : List Action) :
    Steps.Along (step createToken) (fun h => h.RegistrySound ∧ h.FlushSound) (init hash) as ↔
      Steps.Meets (step createToken) (KeepsRegistry createToken) (init hash) as := by
  refine Steps.along_iff_meets (I := fun _ => True) (fun _ _ _ _ _ => trivial) ?_
    (fun _ _ => keepsRegistry_of_disabled createToken) as trivial
    ⟨init_sound hash, (init_sound hash).flush⟩
  rintro h a t - ⟨hs, -⟩ ht
  rw [← step_sound_iff createToken hs ht]
  exact ⟨fun hp => hp.1, fun hp => ⟨hp, hp.flush⟩⟩

/-- Two users, `a` with id 1 and `b` with id 2. -/
def twoUsers : UserTable := fun name =>
  if name = "a" then some ⟨1, "a", "pw"⟩ else if name = "b" then some ⟨2, "b", "pw"⟩ else none

/-- One connection logs in as `a` and then as `b`: user 1 stays registered on a
connection that belongs to user 2. -/
theorem relogin_leaves_stale_entry :
    ∃ h, Steps.run (step fun _ _ => "") (init UInt64.toNat)
        [.accept, .login 0 twoUsers ⟨true, true, true⟩ ⟨"a", "pw"⟩,
          .login 0 twoUsers ⟨true, true, true⟩ ⟨"b", "pw"⟩] = some h ∧
      h.push.findConnection 1 = some 0 ∧ h.LoggedInAs 0 2 ∧ ¬ h.RegistrySound ∧ ¬ h.FlushSound := by
  let h := ((init UInt64.toNat).accept.setUserId 0 1).setUserId 0 2
  have hreg : h.push.findConnection 1 = some 0 := rfl
  have hcur : h.LoggedInAs 0 2 := rfl
  refine ⟨h, rfl, hreg, hcur, fun hs => ?_, fun hf => ?_⟩
  · exact absurd (hcur.symm.trans (hs 1 0 hreg)) (by decide)
  · have hm := PushService.mem_targets.mpr ⟨List.mem_singleton_self (⟨1, [0]⟩ : PushItem), hreg⟩
    exact absurd (hcur.symm.trans (hf _ _ _ hm)) (by decide)

end Sessions
end TermChat
