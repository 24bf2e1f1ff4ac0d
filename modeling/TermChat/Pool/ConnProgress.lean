import TermChat.Pool.SqlConnPool

/-! Callers of `SqlConnPool` cannot block each other for good. -/
namespace TermChat
namespace SqlConnPool

variable {κ : Type}

def inside : ConnCaller κ → Bool
  | .popping | .unlocking _ | .pushing _ | .posting | .leaving => true
  | _ => false

/-- The steps that a caller has before it, at most. -/
def stepsLeft : ConnCaller κ → ℕ
  | .testing => 10
  | .waiting => 9
  | .lockingToPop => 8
  | .popping => 7
  | .unlocking _ => 6
  | .holding _ => 5
  | .lockingToPush _ => 4
  | .pushing _ => 3
  | .posting => 2
  | .leaving => 1

def goTo (p : SqlConnPool κ) (i : ℕ) (next : Option (ConnCaller κ)) : SqlConnPool κ :=
  { p with callers := Threads.advance p.callers i next }

/-- What a caller can do, when no pop finds the queue empty: the pool after it, and where the caller
stands then. -/
inductive Moves (p : SqlConnPool κ) :
    ConnCaller κ → SqlConnPool κ → Option (ConnCaller κ) → Prop where
  | refuse (hempty : p.connQueue = []) : Moves p .testing p none
  | pass (hsome : p.connQueue ≠ []) : Moves p .testing p (some .waiting)
  | wait (hsem : 0 < p.sem) : Moves p .waiting { p with sem := p.sem - 1 } (some .lockingToPop)
  | lockToPop (hfree : p.locked = false) :
      Moves p .lockingToPop { p with locked := true } (some .popping)
  | pop {conn : κ} {rest : List κ} (hqueue : p.connQueue = conn :: rest) :
      Moves p .popping { p with connQueue := rest } (some (.unlocking conn))
  | unlock (conn : κ) : Moves p (.unlocking conn) { p with locked := false } (some (.holding conn))
  | use (conn : κ) : Moves p (.holding conn) p (some (.lockingToPush conn))
  | lockToPush (conn : κ) (hfree : p.locked = false) :
      Moves p (.lockingToPush conn) { p with locked := true } (some (.pushing conn))
  | push (conn : κ) :
      Moves p (.pushing conn) { p with connQueue := p.connQueue ++ [conn] } (some .posting)
  | post : Moves p .posting { p with sem := p.sem + 1 } (some .leaving)
  | leave : Moves p .leaving { p with locked := false } none

variable {created : List κ} {p p' q : SqlConnPool κ} {i : ℕ} {caller : ConnCaller κ}
  {after : Option (ConnCaller κ)}

theorem Inv.moves (h : p.Inv created) (hi : p.callers[i]? = some caller)
    (hstep : p.next i caller = some p') : ∃ q after, p.Moves caller q after ∧ p' = q.goTo i after := by
  cases caller with
  | testing =>
    obtain rfl := Option.some.inj hstep
    cases hqueue : p.connQueue with
    | nil => exact ⟨p, none, .refuse hqueue, by simp [goTo, hqueue]⟩
    | cons conn rest =>
      exact ⟨p, some .waiting, .pass (by simp [hqueue]), by simp [goTo, hqueue]⟩
  | waiting =>
    simp only [SqlConnPool.next] at hstep
    split_ifs at hstep with hsem
    exact ⟨_, _, .wait hsem, (Option.some.inj hstep).symm⟩
  | lockingToPop =>
    simp only [SqlConnPool.next] at hstep
    split_ifs at hstep with hlocked
    exact ⟨_, _, .lockToPop (by simpa using hlocked), (Option.some.inj hstep).symm⟩
  | popping =>
    cases hqueue : p.connQueue with
    | nil => exact absurd hqueue (h.queue_ne_nil hi)
    | cons conn rest =>
      simp only [SqlConnPool.next, hqueue] at hstep
      exact ⟨_, _, .pop hqueue, (Option.some.inj hstep).symm⟩
  | unlocking conn => exact ⟨_, _, .unlock conn, (Option.some.inj hstep).symm⟩
  | holding conn => exact ⟨_, _, .use conn, (Option.some.inj hstep).symm⟩
  | lockingToPush conn =>
    simp only [SqlConnPool.next] at hstep
    split_ifs at hstep with hlocked
    exact ⟨_, _, .lockToPush conn (by simpa using hlocked), (Option.some.inj hstep).symm⟩
  | pushing conn => exact ⟨_, _, .push conn, (Option.some.inj hstep).symm⟩
  | posting => exact ⟨_, _, .post, (Option.some.inj hstep).symm⟩
  | leaving => exact ⟨_, _, .leave, (Option.some.inj hstep).symm⟩

theorem Moves.callers (h : p.Moves caller q after) : q.callers = p.callers := by
  cases h <;> rfl

/-- A caller with the mutex is the only one, and no caller gets past the test of a pool without
connections. -/
structure Orderly (created : List κ) (p : SqlConnPool κ) : Prop where
  inv : p.Inv created
  holder : p.callers.countP inside = p.locked.toNat
  passed : ∀ caller ∈ p.callers, caller ≠ .testing → created ≠ []

theorem Moves.holder (h : p.Moves caller q after) :
    q.locked.toNat + (if inside caller then 1 else 0) =
      p.locked.toNat + after.toList.countP inside ∨
    inside caller = true ∧ q.locked = false ∧ after.toList.countP inside = 0 := by
  cases h with
  | lockToPop hfree => simp [inside, hfree]
  | lockToPush conn hfree => simp [inside, hfree]
  | _ => simp [inside]

theorem Moves.passed (h : p.Moves caller q after) (hinv : p.Inv created)
    (hcaller : caller ≠ .testing → created ≠ []) {c : ConnCaller κ} (hafter : after = some c) :
    created ≠ [] := by
  cases h with
  | refuse => cases hafter
  | leave => cases hafter
  | pass hsome =>
    rintro rfl
    exact hsome (List.append_eq_nil_iff.mp hinv.conserved.eq_nil).1
  | _ => exact hcaller nofun

theorem Orderly.next (h : p.Orderly created) (hi : p.callers[i]? = some caller)
    (hstep : p.next i caller = some p') : p'.Orderly created := by
  have hinv := h.inv.next hi hstep
  obtain ⟨q, after, hmoves, rfl⟩ := h.inv.moves hi hstep
  have hsame := hmoves.callers
  have hbefore := Threads.countP_eq hi inside
  have hcount := Threads.countP_advance hi after inside
  have hholder := h.holder
  refine ⟨hinv, ?_, ?_⟩
  · change (Threads.advance q.callers i after).countP inside = q.locked.toNat
    rw [hsame, hcount]
    rcases hmoves.holder with hmove | ⟨hinside, hfree, hnone⟩
    · omega
    · have hle := Bool.toNat_le p.locked
      rw [hinside, if_pos rfl] at hbefore
      rw [hfree, Bool.toNat_false]
      omega
  · intro c hc
    change c ∈ Threads.advance q.callers i after at hc
    rw [hsame] at hc
    intro hne
    rcases (Threads.mem_advance hi).mp hc with hafter | hother
    · exact hmoves.passed h.inv (h.passed caller (List.mem_of_getElem? hi)) hafter
    · exact h.passed c ((Threads.mem_iff hi).mpr (.inr hother)) hne

theorem Orderly.step (h : p.Orderly created) {a : Action} (hstep : p.step a = some p') :
    p'.Orderly created := by
  cases a with
  | getConn =>
    have hinv := h.inv.step hstep
    obtain rfl := Option.some.inj hstep
    refine ⟨hinv, ?_, ?_⟩
    · rw [List.countP_append]
      exact h.holder
    · intro c hc hne
      rcases List.mem_append.mp hc with hc | hc
      · exact h.passed c hc hne
      · exact absurd (List.mem_singleton.mp hc) hne
  | call i =>
    obtain ⟨caller, hi, hnext⟩ := Option.bind_eq_some_iff.mp hstep
    exact h.next hi hnext

theorem Orderly.of_run {as : List Action} (hrun : Steps.run SqlConnPool.step (init created) as = some p) :
    p.Orderly created :=
  Steps.invariant_of_run (fun _ _ _ h hstep => Orderly.step h hstep)
    ⟨init_inv created, rfl, fun _ hmem => nomatch hmem⟩ hrun

def rank (p : SqlConnPool κ) : ℕ := Threads.total stepsLeft p.callers

private theorem rank_le (p : SqlConnPool κ) : p.rank ≤ 10 * p.callers.length := by
  unfold rank
  induction p.callers with
  | nil => exact Nat.le_refl _
  | cons caller callers ih =>
    have hle : stepsLeft caller ≤ 10 := by cases caller <;> simp [stepsLeft]
    simp only [Threads.total, List.length_cons]
    omega

def Action.isCall : Action → Bool
  | .getConn => false
  | .call _ => true

theorem Orderly.rank_lt (h : p.Orderly created) {a : Action} (hcall : a.isCall = true)
    (hstep : p.step a = some p') : p'.rank < p.rank := by
  cases a with
  | getConn => cases hcall
  | call i =>
    obtain ⟨caller, hi, hnext⟩ := Option.bind_eq_some_iff.mp hstep
    obtain ⟨q, after, hmoves, rfl⟩ := h.inv.moves hi hnext
    have hbefore := Threads.total_eq hi stepsLeft
    have hafter := Threads.total_advance hi after stepsLeft
    have hless : Threads.total stepsLeft after.toList < stepsLeft caller := by
      cases hmoves <;> simp [stepsLeft, Threads.total]
    change Threads.total stepsLeft (Threads.advance q.callers i after) < _
    rw [hmoves.callers, hafter, rank, hbefore]
    omega

def Resting (p : SqlConnPool κ) : Prop := ∀ i, p.step (.call i) = none

theorem Resting.next_eq_none (h : p.Resting) (hi : p.callers[i]? = some caller) :
    p.next i caller = none := by
  have hnext := h i
  rwa [SqlConnPool.step, hi] at hnext

theorem Resting.not_inside (h : p.Resting) (hi : p.callers[i]? = some caller) :
    inside caller = false := by
  have hnext := h.next_eq_none hi
  cases caller with
  | popping =>
    cases hqueue : p.connQueue with
    | nil => simp [SqlConnPool.next, hqueue] at hnext
    | cons conn rest => simp [SqlConnPool.next, hqueue] at hnext
  | unlocking | pushing | posting | leaving => cases hnext
  | _ => rfl

/-- When no caller can go on, each of them waits for the semaphore. -/
theorem Orderly.waiting (h : p.Orderly created) (hrest : p.Resting)
    (hi : p.callers[i]? = some caller) : caller = .waiting ∧ p.sem = 0 := by
  have hfree : p.locked = false := by
    have hnone : p.callers.countP inside = 0 := by
      rw [List.countP_eq_zero]
      intro other hmem
      obtain ⟨j, hj⟩ := List.mem_iff_getElem?.mp hmem
      simp [hrest.not_inside hj]
    have hholder := h.holder
    rw [hnone] at hholder
    exact Bool.toNat_eq_zero.mp hholder.symm
  have hnext := hrest.next_eq_none hi
  have hinside := hrest.not_inside hi
  cases caller with
  | waiting =>
    simp only [SqlConnPool.next] at hnext
    split_ifs at hnext with hsem
    exact ⟨rfl, Nat.eq_zero_of_not_pos hsem⟩
  | lockingToPop | lockingToPush => simp [SqlConnPool.next, hfree] at hnext
  | testing | holding => cases hnext
  | _ => cases hinside

theorem Orderly.no_callers (h : p.Orderly created) (hrest : p.Resting) : p.callers = [] := by
  have hwaiting : ∀ caller ∈ p.callers, caller = .waiting ∧ p.sem = 0 := by
    intro caller hmem
    obtain ⟨i, hi⟩ := List.mem_iff_getElem?.mp hmem
    exact h.waiting hrest hi
  have hnone : ∀ kind : ConnCaller κ → Bool, kind .waiting = false → p.callers.countP kind = 0 := by
    intro kind hkind
    rw [List.countP_eq_zero]
    intro caller hmem
    rw [(hwaiting caller hmem).1, hkind]
    exact Bool.false_ne_true
  by_contra hsome
  obtain ⟨caller, hmem⟩ := List.exists_mem_of_ne_nil _ hsome
  obtain ⟨rfl, hsem⟩ := hwaiting caller hmem
  -- nothing is counted and nothing is held, so that there is no connection at all
  have hqueue : p.connQueue = [] := by
    have hcount := h.inv.count
    rw [hsem, hnone taking rfl, hnone giving rfl] at hcount
    exact List.length_eq_zero_iff.mp hcount
  have hheld : p.held = [] := by
    rw [held, List.filterMap_eq_nil_iff]
    intro caller hmem
    rw [(hwaiting caller hmem).1]
    rfl
  have hcreated := h.inv.conserved
  rw [hqueue, hheld] at hcreated
  have hpast : (.waiting : ConnCaller κ) ≠ .testing := by
    intro heq
    cases heq
  exact h.passed .waiting hmem hpast hcreated.nil_eq.symm

/-- From every state of the pool its callers can go on by themselves for at most ten steps each. They
come to rest only when all of them have returned, and then every connection is back in the queue
and counted. A call that finds the pool busy does so while other callers have all connections. -/
theorem callers_finish (created : List κ) (as : List Action) (is : List ℕ) (p q : SqlConnPool κ)
    (hrun : Steps.run step (init created) as = some p)
    (hgoOn : Steps.run step p (is.map .call) = some q) :
    is.length ≤ 10 * p.callers.length ∧
      (q.Resting → q.callers = [] ∧ q.sem = created.length ∧ q.connQueue.Perm created) ∧
      (q.connQueue = [] → q.held.Perm created) := by
  have hp := Orderly.of_run hrun
  have hcalls : ∀ a ∈ is.map Action.call, a.isCall = true := by
    intro a ha
    obtain ⟨i, -, rfl⟩ := List.mem_map.mp ha
    rfl
  have hkeep : ∀ s a t, Orderly created s → step s a = some t → Orderly created t :=
    fun _ _ _ h hstep => h.step hstep
  have hless : ∀ s a t, Orderly created s → a.isCall = true → step s a = some t →
      rank t < rank s := fun _ _ _ h hcall hstep => h.rank_lt hcall hstep
  have hlength := Steps.length_add_rank_le hkeep hless hp hcalls hgoOn
  have hq := Steps.invariant_of_run hkeep hp hgoOn
  have hrank := p.rank_le
  rw [List.length_map] at hlength
  refine ⟨by omega, fun hrest => ?_, fun hempty => ?_⟩
  · have hnone := hq.no_callers hrest
    have hcount := hq.inv.count
    have hconserved := hq.inv.conserved
    rw [held, hnone, List.filterMap_nil, List.append_nil] at hconserved
    rw [hnone, hconserved.length_eq] at hcount
    exact ⟨hnone, hcount.symm, hconserved⟩
  · have hconserved := hq.inv.conserved
    rwa [hempty, List.nil_append] at hconserved

/-- Both callers are past the test of the only connection, and the first one is past `sem_wait`. -/
def contended : SqlConnPool ℕ := ⟨[7], 0, false, [.lockingToPop, .waiting], false⟩

/-- The second caller goes on when the first one has freed the connection. -/
theorem callers_finish_contended :
    Steps.run step (init [7]) [.getConn, .getConn, .call 0, .call 1, .call 0] = some contended ∧
      Steps.run step contended (List.map .call (List.replicate 17 0)) = some (init [7]) ∧
      (List.replicate 17 0).length ≤ 10 * contended.callers.length ∧
      (init [7]).sem = [7].length := by
  have hrun : Steps.run step (init [7]) [.getConn, .getConn, .call 0, .call 1, .call 0] =
      some contended := rfl
  have hgoOn : Steps.run step contended (List.map .call (List.replicate 17 0)) = some (init [7]) :=
    rfl
  have hrest : (init [7]).Resting := fun _ => rfl
  have hfinish := callers_finish [7] _ (List.replicate 17 0) contended (init [7]) hrun hgoOn
  exact ⟨hrun, hgoOn, hfinish.1, (hfinish.2.1 hrest).2.1⟩

end SqlConnPool
end TermChat
