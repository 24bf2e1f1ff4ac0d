import TermChat.Base.Steps
import TermChat.Service.Friend

/-! Runs of `AddFriend` and `HandleFriend` calls, by any users and in any order. Neither call
looks at the status of the rows it finds, and `HandleFriend` takes the sender from its
request. -/
namespace TermChat
open Proto

/-- What was recorded: a request, and the accept of a sender by a receiver. -/
inductive FriendEvent where
  | request (senderId receiverId : UInt64)
  | accept (senderId receiverId : UInt64)
  deriving DecidableEq, Repr

/-- `log` keeps the calls that succeeded, requests and accepts, in their order. -/
structure FriendSystem where
  table : FriendTable
  push : PushService
  log : List FriendEvent

namespace FriendSystem

inductive Call where
  | addFriend (env : FriendEnv) (senderId : UInt64) (req : AddFriendReq)
  | handleFriend (env : FriendEnv) (receiverId : UInt64) (req : HandleFriendReq)

def init (push : PushService) : FriendSystem := ⟨.empty, push, []⟩

variable (c : Codec) (findById : UInt64 → User)

def step (s : FriendSystem) : Call → Option FriendSystem
  | .addFriend env senderId req =>
    let r := FriendService.addFriend c findById env senderId req s.table s.push
    some ⟨r.2.1, r.2.2,
      if r.1.success = true then s.log ++ [.request senderId req.receiverId] else s.log⟩
  | .handleFriend env receiverId req =>
    let r := FriendService.handleFriend c findById env receiverId req s.table s.push
    some ⟨r.2.1, r.2.2,
      if r.1.success = true ∧ req.action = .accept then s.log ++ [.accept req.senderId receiverId]
      else s.log⟩

variable {c findById} {s t : FriendSystem} {env : FriendEnv}

theorem step_addFriend {senderId : UInt64} {req : AddFriendReq}
    (h : step c findById s (.addFriend env senderId req) = some t) :
    (s.table.status senderId req.receiverId = none ∧
      (∀ a b, t.table.status a b =
        if (a, b) = (senderId, req.receiverId) then some .pending else s.table.status a b) ∧
      t.log = s.log ++ [.request senderId req.receiverId]) ∨
    (t.table = s.table ∧ t.log = s.log) := by
  obtain rfl := Option.some.inj h
  rcases FriendService.addFriend_cases c findById env s.table s.push senderId req with
    ⟨hsucc, hnone, hrows⟩ | ⟨hfail, hsame⟩
  · exact .inl ⟨hnone, hrows, if_pos hsucc⟩
  · exact .inr ⟨hsame, if_neg (by simp [hfail])⟩

theorem step_handleFriend {receiverId : UInt64} {req : HandleFriendReq}
    (h : step c findById s (.handleFriend env receiverId req) = some t) :
    (env.ok = false ∧ t.table = s.table ∧ t.log = s.log) ∨
    (env.ok = true ∧ req.action = .accept ∧
      t.table = FriendDao.acceptRows s.table env.createdAt receiverId req.senderId ∧
      t.log = s.log ++ [.accept req.senderId receiverId]) ∨
    (env.ok = true ∧ req.action ≠ .accept ∧
      t.table = s.table.setStatus req.senderId receiverId .rejected ∧ t.log = s.log) := by
  obtain rfl := Option.some.inj h
  obtain ⟨hsucc, htable⟩ :=
    FriendService.handleFriend_spec c findById env s.table s.push receiverId req
  cases hok : env.ok with
  | false =>
    rw [hok] at hsucc htable
    exact .inl ⟨rfl, htable, if_neg (by simp [hsucc])⟩
  | true =>
    rw [hok] at hsucc htable
    by_cases hacc : req.action = .accept
    · exact .inr (.inl ⟨rfl, hacc, by simpa [hacc] using htable, if_pos ⟨hsucc, hacc⟩⟩)
    · exact .inr (.inr ⟨rfl, hacc, by simpa [hacc] using htable, if_neg (by simp [hacc])⟩)

section Symmetry

/-- The accepted rows come in pairs, and of two registered users each is in the friend list
of the other or neither is. -/
def Mutual (username : UInt64 → Option String) (s : FriendSystem) : Prop :=
  (∀ a b, s.table.status a b = some .accepted ↔ s.table.status b a = some .accepted) ∧
  ∀ a b, (username a).isSome → (username b).isSome →
    (a ∈ (FriendDao.getFriendList s.table username b).map User.userId ↔
      b ∈ (FriendDao.getFriendList s.table username a).map User.userId)

theorem mutual_iff {username : UInt64 → Option String} :
    Mutual username s ↔
      ∀ a b, s.table.status a b = some .accepted ↔ s.table.status b a = some .accepted := by
  constructor
  · intro h
    exact h.1
  · intro h
    refine ⟨h, fun a b ha hb => ?_⟩
    rw [FriendDao.mem_getFriendList, FriendDao.mem_getFriendList, h b a]
    simp [ha, hb]

theorem Mutual.congr {username : UInt64 → Option String} (hs : Mutual username s)
    (ht : t.table = s.table) : Mutual username t := by
  rw [mutual_iff] at hs ⊢
  rwa [ht]

/-- An accept finds the request that it accepts, and a reject one that is not accepted. A
user's dealings with themselves are exempt: they concern a single row. -/
def Orderly (s : FriendSystem) : Call → Prop
  | .addFriend _ _ _ => True
  | .handleFriend env receiverId req =>
    env.ok = true → req.senderId ≠ receiverId →
      if req.action = .accept then (s.table.status req.senderId receiverId).isSome
      else s.table.status req.senderId receiverId ≠ some .accepted

instance (s : FriendSystem) (call : Call) : Decidable (Orderly s call) := by
  unfold Orderly
  cases call <;> infer_instance

theorem accepted_symm_of_self {st st' : UInt64 → UInt64 → Option FriendStatus} {x : UInt64}
    (hs : ∀ a b, st a b = some .accepted ↔ st b a = some .accepted)
    (hother : ∀ a b, ¬ (a = x ∧ b = x) → st' a b = st a b) (a b : UInt64) :
    st' a b = some .accepted ↔ st' b a = some .accepted := by
  by_cases hx : a = x ∧ b = x
  · rw [hx.1, hx.2]
  · rw [hother a b hx, hother b a (hx ∘ And.symm)]
    exact hs a b

theorem mutual_accept_iff {username : UInt64 → Option String} (hs : Mutual username s)
    {now : Int64} {r x : UInt64} (ht : t.table = FriendDao.acceptRows s.table now r x) :
    Mutual username t ↔ (x ≠ r → (s.table.status x r).isSome) := by
  rw [mutual_iff] at hs ⊢
  simp only [ht, FriendDao.status_acceptRows, Prod.mk.injEq]
  constructor
  · intro h hne
    have hrow := (h r x).mp (by simp)
    rw [if_neg (fun heq => hne heq.1), if_pos ⟨rfl, rfl⟩, Option.map_eq_some_iff] at hrow
    obtain ⟨st, hst, -⟩ := hrow
    rw [hst]
    rfl
  · intro h a b
    have hab := hs a b
    by_cases hself : x = r
    · subst hself
      exact accepted_symm_of_self hs (fun a b hx => (if_neg hx).trans (if_neg hx)) a b
    · obtain ⟨st, hst⟩ := Option.isSome_iff_exists.mp (h hself)
      rw [hst, Option.map_some]
      split_ifs <;> grind

theorem mutual_reject_iff {username : UInt64 → Option String} (hs : Mutual username s)
    {r x : UInt64} (ht : t.table = s.table.setStatus x r .rejected) :
    Mutual username t ↔ (x ≠ r → s.table.status x r ≠ some .accepted) := by
  have hrej : ∀ o : Option FriendStatus, o.map (fun _ => FriendStatus.rejected) ≠ some .accepted := by
    intro o
    cases o <;> simp
  rw [mutual_iff] at hs ⊢
  simp only [ht, FriendTable.status_setStatus, Prod.mk.injEq]
  constructor
  · intro h hne hacc
    have hback : s.table.status r x = some .accepted := (hs x r).mp hacc
    have hrow := (h r x).mp (by rwa [if_neg fun heq => hne heq.2])
    rw [if_pos ⟨rfl, rfl⟩] at hrow
    exact hrej _ hrow
  · intro h a b
    have hab := hs a b
    by_cases hself : x = r
    · subst hself
      exact accepted_symm_of_self hs (fun a b hx => if_neg hx) a b
    · have hxr := h hself
      have hrx : s.table.status r x ≠ some .accepted := fun hacc => hxr ((hs x r).mpr hacc)
      split_ifs <;> grind

variable (c findById) in
/-- In a run from the empty table the accepted rows stay in pairs exactly when every accept
finds a request and no reject finds an accepted one. -/
theorem friendship_mutual_iff (push : PushService) (username : UInt64 → Option String)
    (calls : List Call) :
    Steps.Along (step c findById) (Mutual username) (init push) calls ↔
      Steps.Meets (step c findById) Orderly (init push) calls := by
  apply Steps.along_iff_meets (I := fun _ => True)
  · intro s call t _ _
    trivial
  · intro s call t _ hs h
    cases call with
    | addFriend env senderId req =>
      refine iff_of_true ?_ trivial
      rcases step_addFriend h with ⟨hnone, hrows, -⟩ | ⟨hsame, -⟩
      · rw [mutual_iff] at hs ⊢
        intro a b
        have hab := hs a b
        simp only [hrows, Prod.mk.injEq]
        split_ifs <;> grind
      · exact hs.congr hsame
    | handleFriend env r req =>
      rcases step_handleFriend h with ⟨hok, hsame, -⟩ | ⟨hok, hacc, htable, -⟩ | ⟨hok, hacc, htable, -⟩
      · refine iff_of_true ?_ (fun h => absurd (hok.symm.trans h) (by simp))
        exact hs.congr hsame
      · rw [mutual_accept_iff hs htable]
        simp [Orderly, hok, hacc]
      · rw [mutual_reject_iff hs htable]
        simp [Orderly, hok, hacc]
  · intro s call h
    cases call <;> cases h
  · trivial
  · rw [mutual_iff]
    intro a b
    exact Iff.rfl

/-- User 1 asks user 2, who accepts. -/
def befriend : List Call :=
  [.addFriend {} 1 { receiverId := 2 }, .handleFriend {} 2 { senderId := 1, action := .accept }]

def names (u : UInt64) : Option String := if u = 1 then "ann" else if u = 2 then "bob" else none

example : Steps.Meets (step (.ofTable [] List.nodup_nil) fun _ => {}) Orderly
    (init (.init fun _ => 0)) befriend := by decide

/-- User 2 rejects after accepting: user 1 stays in the list of user 2, and not the other way
round. -/
theorem reject_after_accept_one_sided :
    ∃ s, Steps.run (step (.ofTable [] List.nodup_nil) fun _ => {}) (init (.init fun _ => 0))
        (befriend ++ [.handleFriend {} 2 { senderId := 1, action := .reject }]) = some s ∧
      s.table.status 1 2 = some .rejected ∧ s.table.status 2 1 = some .accepted ∧
      (FriendDao.getFriendList s.table names 1).map User.userId = [] ∧
      (FriendDao.getFriendList s.table names 2).map User.userId = [1] :=
  ⟨_, rfl, by decide, by decide, by decide, by decide⟩

end Symmetry

section Consent

/-- One of the two asked the other, and the other one later accepted. -/
def Consent (log : List FriendEvent) (a b : UInt64) : Prop :=
  [.request a b, .accept a b].Sublist log ∨ [.request b a, .accept b a].Sublist log

instance (log : List FriendEvent) (a b : UInt64) : Decidable (Consent log a b) :=
  inferInstanceAs (Decidable (_ ∨ _))

theorem Consent.symm {log : List FriendEvent} {a b : UInt64} (h : Consent log a b) :
    Consent log b a :=
  Or.symm h

theorem pair_sublist_concat {x y z : FriendEvent} {l : List FriendEvent} :
    [x, y].Sublist (l ++ [z]) ↔ [x, y].Sublist l ∨ x ∈ l ∧ y = z := by
  constructor
  · intro h
    obtain ⟨l₁, l₂, heq, h₁, h₂⟩ := List.sublist_append_iff.mp h
    rcases List.sublist_singleton.mp h₂ with rfl | rfl
    · rw [List.append_nil] at heq
      exact .inl (heq ▸ h₁)
    · have heq' : [x] ++ [y] = l₁ ++ [z] := heq
      obtain ⟨hx, hy⟩ := List.append_inj' heq' rfl
      exact .inr ⟨List.singleton_sublist.mp (hx ▸ h₁), List.singleton_inj.mp hy⟩
  · rintro (h | ⟨hx, rfl⟩)
    · exact h.trans (List.sublist_append_left _ _)
    · exact List.Sublist.append (List.singleton_sublist.mpr hx) (List.Sublist.refl [y])

theorem consent_request {log : List FriendEvent} {a b x y : UInt64} :
    Consent (log ++ [.request x y]) a b ↔ Consent log a b := by
  simp [Consent, pair_sublist_concat]

/-- An accept makes consent of an earlier request in its direction. -/
theorem consent_accept {log : List FriendEvent} {a b x r : UInt64} :
    Consent (log ++ [.accept x r]) a b ↔
      Consent log a b ∨ ((a, b) = (x, r) ∨ (b, a) = (x, r)) ∧ .request x r ∈ log := by
  simp only [Consent, pair_sublist_concat, FriendEvent.accept.injEq, Prod.mk.injEq]
  grind

/-- Whoever is in a friend list has consented, or has been consented to. -/
def Consensual (username : UInt64 → Option String) (s : FriendSystem) : Prop :=
  ∀ a b, b ∈ (FriendDao.getFriendList s.table username a).map User.userId → Consent s.log a b

/-- An accept follows a request of the sender it names, unless the two have consented before
or neither row it writes can be listed, its friend not being registered. -/
def Invited (username : UInt64 → Option String) (s : FriendSystem) : Call → Prop
  | .addFriend _ _ _ => True
  | .handleFriend env receiverId req =>
    env.ok = true → req.action = .accept →
      .request req.senderId receiverId ∈ s.log ∨ Consent s.log receiverId req.senderId ∨
        username req.senderId = none ∧
          (s.table.status req.senderId receiverId = none ∨ username receiverId = none)

theorem consensual_accept_iff {username : UInt64 → Option String} (hs : Consensual username s)
    {now : Int64} {r x : UInt64} (ht : t.table = FriendDao.acceptRows s.table now r x)
    (hlog : t.log = s.log ++ [.accept x r]) :
    Consensual username t ↔
      (.request x r ∈ s.log ∨ Consent s.log r x ∨
        username x = none ∧ (s.table.status x r = none ∨ username r = none)) := by
  unfold Consensual at hs ⊢
  simp only [FriendDao.mem_getFriendList] at hs ⊢
  simp only [ht, hlog, FriendDao.status_acceptRows, consent_accept]
  constructor
  · intro h
    cases hx : username x with
    | some name =>
      rcases h r x ⟨if_pos rfl, by rw [hx]; rfl⟩ with hcon | ⟨-, hreq⟩
      · exact .inr (.inl hcon)
      · exact .inl hreq
    | none =>
      -- only the row of the sender can be listed
      cases hst : s.table.status x r with
      | none => exact .inr (.inr ⟨rfl, .inl rfl⟩)
      | some st =>
        cases hr : username r with
        | none => exact .inr (.inr ⟨rfl, .inr rfl⟩)
        | some name =>
          have hrow : (if (x, r) = (r, x) then some FriendStatus.accepted
              else if (x, r) = (x, r) then (s.table.status x r).map fun _ => FriendStatus.accepted
              else s.table.status x r) = some .accepted := by
            rw [hst, if_pos (rfl : (x, r) = (x, r)), Option.map_some, ite_self]
          rcases h x r ⟨hrow, by rw [hr]; rfl⟩ with hcon | ⟨-, hreq⟩
          · exact .inr (.inl hcon.symm)
          · exact .inl hreq
  · rintro h a b ⟨hst, hreg⟩
    split_ifs at hst with hrx hxr
    · obtain ⟨rfl, rfl⟩ := Prod.mk.inj hrx
      rcases h with hreq | hcon | ⟨hnone, -⟩
      · exact .inr ⟨.inr rfl, hreq⟩
      · exact .inl hcon
      · rw [hnone] at hreg
        cases hreg
    · obtain ⟨rfl, rfl⟩ := Prod.mk.inj hxr
      rcases h with hreq | hcon | ⟨-, hnone | hnone⟩
      · exact .inr ⟨.inl rfl, hreq⟩
      · exact .inl hcon.symm
      · rw [hnone] at hst
        cases hst
      · rw [hnone] at hreg
        cases hreg
    · exact .inl (hs a b ⟨hst, hreg⟩)

/-- A request lists nobody, and takes no consent away. -/
theorem consensual_addFriend {username : UInt64 → Option String} {env : FriendEnv}
    {senderId : UInt64} {req : AddFriendReq} (hs : Consensual username s)
    (h : step c findById s (.addFriend env senderId req) = some t) : Consensual username t := by
  intro a b hab
  rw [FriendDao.mem_getFriendList] at hab
  rcases step_addFriend h with ⟨hnone, hrows, hlog⟩ | ⟨hsame, hlog⟩
  · rw [hlog, consent_request]
    rw [hrows] at hab
    split_ifs at hab
    · simp at hab
    · exact hs a b (FriendDao.mem_getFriendList.mpr hab)
  · rw [hsame] at hab
    rw [hlog]
    exact hs a b (FriendDao.mem_getFriendList.mpr hab)

theorem consensual_setStatus {username : UInt64 → Option String} {user friend : UInt64}
    {st : FriendStatus} (hs : Consensual username s) (hst : st ≠ .accepted)
    (ht : t.table = s.table.setStatus user friend st) (hlog : t.log = s.log) :
    Consensual username t := by
  intro a b hab
  rw [FriendDao.mem_getFriendList, ht, FriendTable.status_setStatus] at hab
  rw [hlog]
  split_ifs at hab
  · obtain ⟨hab, -⟩ := hab
    obtain ⟨st', -, heq⟩ := Option.map_eq_some_iff.mp hab
    exact absurd heq hst
  · exact hs a b (FriendDao.mem_getFriendList.mpr hab)

variable (c findById) in
/-- In a run from the empty table nobody is listed without consent exactly when every accept
was asked for. -/
theorem friendship_consensual_iff (push : PushService) (username : UInt64 → Option String)
    (calls : List Call) :
    Steps.Along (step c findById) (Consensual username) (init push) calls ↔
      Steps.Meets (step c findById) (Invited username) (init push) calls := by
  apply Steps.along_iff_meets (I := fun _ => True)
  · intro s call t _ _
    trivial
  · intro s call t _ hs h
    cases call with
    | addFriend env senderId req => exact iff_of_true (consensual_addFriend hs h) trivial
    | handleFriend env r req =>
      rcases step_handleFriend h with ⟨hok, hsame, hlog⟩ | ⟨hok, hacc, htable, hlog⟩ |
        ⟨hok, hacc, htable, hlog⟩
      · refine iff_of_true ?_ (fun h => absurd (hok.symm.trans h) (by simp))
        unfold Consensual
        rwa [hsame, hlog]
      · rw [consensual_accept_iff hs htable hlog]
        simp [Invited, hok, hacc]
      · have hrefused := consensual_setStatus hs (by decide) htable hlog
        exact iff_of_true hrefused fun _ h => absurd h hacc
  · intro s call h
    cases call <;> cases h
  · trivial
  · intro a b hab
    simp [FriendDao.getFriendList, init, FriendTable.empty, Keyed.empty] at hab

/-- User 2 accepts user 1, who has asked for nothing, and finds them in the friend list. -/
theorem accept_without_request_listed :
    ∃ s, Steps.run (step (.ofTable [] List.nodup_nil) fun _ => {}) (init (.init fun _ => 0))
        [.handleFriend {} 2 { senderId := 1, action := .accept }] = some s ∧
      (FriendDao.getFriendList s.table names 2).map User.userId = [1] ∧ ¬ Consent s.log 2 1 :=
  ⟨_, rfl, by decide, by decide⟩

end Consent

end FriendSystem
end TermChat
