import Mathlib.Data.List.Basic

/-! Runs of a partial step function, conditions on the steps of a run, and the
induction rules that carry an invariant from one step to a whole run. -/
namespace Steps

variable {σ α : Type*}

/-- Take the actions in order. `none` when one of them is not enabled. -/
def run (step : σ → α → Option σ) : σ → List α → Option σ
  | s, [] => some s
  | s, a :: as => (step s a).bind fun t => run step t as

/-- Every action of the run meets `C` in the state in which it is taken. -/
def Meets (step : σ → α → Option σ) (C : σ → α → Prop) : σ → List α → Prop
  | _, [] => True
  | s, a :: as => C s a ∧ ∀ t, step s a = some t → Meets step C t as

/-- `P` holds in every state of the run, its first and its last included. -/
def Along (step : σ → α → Option σ) (P : σ → Prop) : σ → List α → Prop
  | s, [] => P s
  | s, a :: as => P s ∧ ∀ t, step s a = some t → Along step P t as

variable {step : σ → α → Option σ} {C : σ → α → Prop} {I P : σ → Prop}

@[simp] theorem run_nil (s : σ) : run step s [] = some s := rfl

theorem run_cons (s : σ) (a : α) (as : List α) :
    run step s (a :: as) = (step s a).bind fun t => run step t as := rfl

theorem run_cons_eq_some {s t : σ} {a : α} {as : List α} :
    run step s (a :: as) = some t ↔ ∃ u, step s a = some u ∧ run step u as = some t := by
  rw [run_cons, Option.bind_eq_some_iff]

theorem run_append (s : σ) (as bs : List α) :
    run step s (as ++ bs) = (run step s as).bind fun t => run step t bs := by
  induction as generalizing s with
  | nil => rfl
  | cons a as ih =>
    simp only [List.cons_append, run_cons]
    cases step s a with
    | none => rfl
    | some t => exact ih t

/-- Runs of actions that the steps do not tell apart. -/
theorem run_map {f : α → α} (hf : ∀ s a, step s (f a) = step s a) (s : σ) (as : List α) :
    run step s (as.map f) = run step s as := by
  induction as generalizing s with
  | nil => rfl
  | cons a as ih => simp only [List.map_cons, run_cons, hf, ih]

/-- An invariant of the steps that meet `C` is an invariant of the runs that do. -/
theorem invariant_of_meets (hstep : ∀ s a t, I s → C s a → step s a = some t → I t)
    {s t : σ} {as : List α} (hs : I s) (hC : Meets step C s as) (hr : run step s as = some t) :
    I t := by
  induction as generalizing s with
  | nil => exact Option.some.inj hr ▸ hs
  | cons a as ih =>
    obtain ⟨u, hu, hr⟩ := run_cons_eq_some.mp hr
    exact ih (hstep s a u hs hC.1 hu) (hC.2 u hu) hr

/-- A run that meets `C` stays inside what the invariant implies. -/
theorem along_of_meets (hstep : ∀ s a t, I s → C s a → step s a = some t → I t)
    (hP : ∀ s, I s → P s) {s : σ} {as : List α} (hs : I s) (hC : Meets step C s as) :
    Along step P s as := by
  induction as generalizing s with
  | nil => exact hP s hs
  | cons a as ih => exact ⟨hP s hs, fun t ht => ih (hstep s a t hs hC.1 ht) (hC.2 t ht)⟩

theorem invariant_of_run (hstep : ∀ s a t, I s → step s a = some t → I t)
    {s t : σ} {as : List α} (hs : I s) (hr : run step s as = some t) : I t := by
  induction as generalizing s with
  | nil => exact Option.some.inj hr ▸ hs
  | cons a as ih =>
    obtain ⟨u, hu, hr⟩ := run_cons_eq_some.mp hr
    exact ih (hstep s a u hs hu) hr

theorem meets_cons {s t : σ} {a : α} {as : List α} (h : step s a = some t) :
    Meets step C s (a :: as) ↔ C s a ∧ Meets step C t as := by
  simp [Meets, h]

/-- What an invariant makes of the condition on the steps. -/
theorem meets_of_invariant {D : σ → α → Prop}
    (hstep : ∀ s a t, I s → C s a → step s a = some t → I t) (hD : ∀ s a, I s → C s a → D s a)
    {s : σ} {as : List α} (hs : I s) (h : Meets step C s as) : Meets step D s as := by
  induction as generalizing s with
  | nil => trivial
  | cons a as ih => exact ⟨hD s a hs h.1, fun t ht => ih (hstep s a t hs h.1 ht) (h.2 t ht)⟩

theorem meets_of_forall (h : ∀ s a, C s a) {s : σ} {as : List α} : Meets step C s as := by
  induction as generalizing s with
  | nil => trivial
  | cons a as ih => exact ⟨h s a, fun _ _ => ih⟩

theorem Along.mono {Q : σ → Prop} (hPQ : ∀ s, P s → Q s) {s : σ} {as : List α}
    (h : Along step P s as) : Along step Q s as := by
  induction as generalizing s with
  | nil => exact hPQ s h
  | cons a as ih => exact ⟨hPQ s h.1, fun t ht => ih (h.2 t ht)⟩

theorem Meets.and {D : α → Prop} {s : σ} {as : List α} (h : Meets step C s as)
    (hD : ∀ a ∈ as, D a) : Meets step (fun s a => C s a ∧ D a) s as := by
  induction as generalizing s with
  | nil => trivial
  | cons a as ih =>
    exact ⟨⟨h.1, hD a List.mem_cons_self⟩,
      fun t ht => ih (h.2 t ht) fun b hb => hD b (List.mem_cons_of_mem a hb)⟩

inductive Path {τ : Type*} (R : τ → α → τ → Prop) : τ → List α → τ → Prop where
  | nil (x : τ) : Path R x [] x
  | cons {x y z : τ} {a : α} {as : List α} (h : R x a y) (hrest : Path R y as z) :
      Path R x (a :: as) z

/-- When every step is a step of `R` on what `f` sees of the state, so is every run. -/
theorem path_of_run {τ : Type*} {R : τ → α → τ → Prop} {f : σ → τ}
    (hI : ∀ s a t, I s → step s a = some t → I t)
    (hsim : ∀ s a t, I s → step s a = some t → R (f s) a (f t))
    {s t : σ} {as : List α} (hs : I s) (hr : run step s as = some t) :
    Path R (f s) as (f t) := by
  induction as generalizing s with
  | nil =>
    obtain rfl := Option.some.inj hr
    exact .nil _
  | cons a as ih =>
    obtain ⟨u, hu, hr⟩ := run_cons_eq_some.mp hr
    exact .cons (hsim s a u hs hu) (ih (hI s a u hs hu) hr)

theorem Path.invariant {τ : Type*} {R : τ → α → τ → Prop} {J : τ → Prop}
    (hstep : ∀ x a y, J x → R x a y → J y) {x y : τ} {as : List α} (hp : Path R x as y) (hx : J x) :
    J y := by
  induction hp with
  | nil x => exact hx
  | cons h hrest ih => exact ih (hstep _ _ _ hx h)

/-- When every step that meets `C` is enabled and keeps `R` to what `f` does, a run that meets `C`
comes to its end and keeps it to what `f` does in turn. -/
theorem simulates {τ : Type*} {R : σ → τ → Prop} {f : τ → α → τ}
    (hsim : ∀ s x a, R s x → C s a → ∃ t, step s a = some t ∧ R t (f x a))
    {s : σ} {x : τ} {as : List α} (hR : R s x) (h : Meets step C s as) :
    ∃ t, run step s as = some t ∧ R t (as.foldl f x) := by
  induction as generalizing s x with
  | nil => exact ⟨s, rfl, hR⟩
  | cons a as ih =>
    obtain ⟨u, hu, hR⟩ := hsim s x a hR h.1
    obtain ⟨t, hr, ht⟩ := ih hR (h.2 u hu)
    exact ⟨t, run_cons_eq_some.mpr ⟨u, hu, hr⟩, ht⟩

instance decidableMeets [∀ s a, Decidable (C s a)] : ∀ s as, Decidable (Meets step C s as)
  | _, [] => isTrue trivial
  | s, a :: as =>
    match h : step s a with
    | none => decidable_of_iff (C s a) (by simp [Meets, h])
    | some t =>
      haveI := decidableMeets t as
      decidable_of_iff (C s a ∧ Meets step C t as) (meets_cons h).symm

theorem meets_append {s : σ} {as bs : List α} :
    Meets step C s (as ++ bs) ↔
      Meets step C s as ∧ ∀ t, run step s as = some t → Meets step C t bs := by
  induction as generalizing s with
  | nil => simp [Meets]
  | cons a as ih =>
    simp only [List.cons_append, Meets, run_cons_eq_some, ih]
    constructor
    · intro h
      refine ⟨⟨h.1, fun t ht => (h.2 t ht).1⟩, ?_⟩
      rintro t ⟨u, hu, hr⟩
      exact (h.2 u hu).2 t hr
    · intro h
      exact ⟨h.1.1, fun u hu => ⟨h.1.2 u hu, fun t ht => h.2 t ⟨u, hu, ht⟩⟩⟩

/-- A completed run that does not meet `C` has a first step that does not. -/
theorem exists_of_not_meets {s t : σ} {as : List α} (hr : run step s as = some t)
    (h : ¬ Meets step C s as) :
    ∃ pre a post u v, as = pre ++ a :: post ∧ run step s pre = some u ∧ step u a = some v ∧
      ¬ C u a ∧ run step v post = some t := by
  induction as generalizing s with
  | nil => exact absurd trivial h
  | cons a as ih =>
    obtain ⟨v, hv, hr⟩ := run_cons_eq_some.mp hr
    by_cases hC : C s a
    · have hrest : ¬ Meets step C v as := by
        intro hm
        refine h ⟨hC, fun t ht => ?_⟩
        rw [hv] at ht
        cases ht
        exact hm
      obtain ⟨pre, b, post, u, x, rfl, hpre, hb, hnb, hpost⟩ := ih hr hrest
      exact ⟨a :: pre, b, post, u, x, rfl, run_cons_eq_some.mpr ⟨v, hv, hpre⟩, hb, hnb, hpost⟩
    · exact ⟨[], a, as, s, v, rfl, rfl, hv, hC, hr⟩

/-- Among the runs whose steps meet `K`: when such a step keeps an invariant, and keeps `P` exactly
if it meets `C`, the runs that stay inside `P` are exactly the runs whose steps meet `C`. -/
theorem along_iff_meets_of_meets {K : σ → α → Prop}
    (hI : ∀ s a t, I s → K s a → step s a = some t → I t)
    (hP : ∀ s a t, I s → K s a → P s → step s a = some t → (P t ↔ C s a))
    (hen : ∀ s a, step s a = none → C s a)
    {s : σ} (as : List α) (hs : I s) (hp : P s) (hK : Meets step K s as) :
    Along step P s as ↔ Meets step C s as := by
  induction as generalizing s with
  | nil => exact ⟨fun _ => trivial, fun _ => hp⟩
  | cons a as ih =>
    cases ha : step s a with
    | none => simp [Along, Meets, ha, hp, hen s a ha]
    | some t =>
      have hit := hI s a t hs hK.1 ha
      have hiff := hP s a t hs hK.1 hp ha
      have hrest := hK.2 t ha
      simp only [Along, Meets, ha, Option.some.injEq, forall_eq', hp, true_and]
      constructor
      · intro h
        have ht : P t := by cases as with
          | nil => exact h
          | cons b bs => exact h.1
        exact ⟨hiff.mp ht, (ih hit ht hrest).mp h⟩
      · rintro ⟨hc, hm⟩
        exact (ih hit (hiff.mpr hc) hrest).mpr hm

/-- When, under an invariant of all steps, a step keeps `P` exactly if it meets `C`,
the runs that stay inside `P` are exactly the runs whose steps meet `C`. -/
theorem along_iff_meets (hI : ∀ s a t, I s → step s a = some t → I t)
    (hP : ∀ s a t, I s → P s → step s a = some t → (P t ↔ C s a))
    (hen : ∀ s a, step s a = none → C s a)
    {s : σ} (as : List α) (hs : I s) (hp : P s) : Along step P s as ↔ Meets step C s as :=
  along_iff_meets_of_meets (K := fun _ _ => True) (fun s a t hs _ => hI s a t hs)
    (fun s a t hs _ => hP s a t hs) hen as hs hp (meets_of_forall fun _ _ => trivial)

/-- When a step reaches `P` exactly if it leaves `P` behind it and meets `C`, so does a run. -/
theorem final_iff_meets (hI : ∀ s a t, I s → step s a = some t → I t)
    (hP : ∀ s a t, I s → step s a = some t → (P t ↔ P s ∧ C s a))
    {s t : σ} {as : List α} (hs : I s) (hr : run step s as = some t) :
    P t ↔ P s ∧ Meets step C s as := by
  induction as generalizing s with
  | nil =>
    cases hr
    exact ⟨fun h => ⟨h, trivial⟩, And.left⟩
  | cons a as ih =>
    obtain ⟨u, hu, hr⟩ := run_cons_eq_some.mp hr
    rw [meets_cons hu, ih (hI s a u hs hu) hr, hP s a u hs hu, and_assoc]

/-- Actions that decrease a rank cannot go on for longer than the rank. -/
theorem length_add_rank_le {rank : σ → ℕ} {own : α → Bool}
    (hI : ∀ s a t, I s → step s a = some t → I t)
    (hrank : ∀ s a t, I s → own a = true → step s a = some t → rank t < rank s)
    {s t : σ} {as : List α} (hs : I s) (hown : ∀ a ∈ as, own a = true)
    (hr : run step s as = some t) : as.length + rank t ≤ rank s := by
  induction as generalizing s with
  | nil =>
    cases hr
    simp
  | cons a as ih =>
    obtain ⟨u, hu, hr⟩ := run_cons_eq_some.mp hr
    have hlt := hrank s a u hs (hown a List.mem_cons_self) hu
    have hrest := ih (hI s a u hs hu) (fun b hb => hown b (List.mem_cons_of_mem a hb)) hr
    rw [List.length_cons]
    omega

/-- A goal that is kept once reached, and a rank that no step increases and every counted action
decreases: after more counted actions than the rank, the goal is reached. -/
theorem reaches_of_rank {G : σ → Prop} {rank : σ → ℕ} {counted : α → Bool}
    (hI : ∀ s a t, I s → step s a = some t → I t)
    (hG : ∀ s a t, I s → G s → step s a = some t → G t)
    (hrank : ∀ s a t, I s → ¬ G s → step s a = some t →
      G t ∨ rank t + (if counted a then 1 else 0) ≤ rank s)
    {s t : σ} {as : List α} (hs : I s) (hr : run step s as = some t)
    (hcount : rank s < as.countP counted) : G t := by
  have hkeep : ∀ {u : σ} {bs : List α}, I u → G u → run step u bs = some t → G t := by
    intro u bs hu hg hr
    exact (invariant_of_run (I := fun v => I v ∧ G v)
      (fun v a w hv ha => ⟨hI v a w hv.1 ha, hG v a w hv.1 hv.2 ha⟩) ⟨hu, hg⟩ hr).2
  induction as generalizing s with
  | nil => cases hcount
  | cons a as ih =>
    by_cases hg : G s
    · exact hkeep hs hg hr
    · obtain ⟨u, hu, hr⟩ := run_cons_eq_some.mp hr
      have hiu := hI s a u hs hu
      rcases hrank s a u hs hg hu with hgu | hle
      · exact hkeep hiu hgu hr
      · apply ih hiu hr
        rw [List.countP_cons] at hcount
        omega

/-- When every step is a run of another machine on what `f` sees of the state, so is every run. Each
counted step is paid for by at most one in `k` of those that count there, or by a rise of `rank`. -/
theorem run_of_stutters {τ β : Type*} {step' : τ → β → Option τ} {f : σ → τ} {rank : σ → ℕ}
    {counted : α → Bool} {counted' : β → Bool} {k : ℕ}
    (hstep : ∀ s a t, I s → C s a → step s a = some t → I t ∧
      ∃ bs, run step' (f s) bs = some (f t) ∧
        (if counted a then 1 else 0) + rank s ≤ k * bs.countP counted' + rank t)
    {s t : σ} {as : List α} (hs : I s) (hC : Meets step C s as) (hr : run step s as = some t) :
    I t ∧ ∃ bs, run step' (f s) bs = some (f t) ∧
      as.countP counted + rank s ≤ k * bs.countP counted' + rank t := by
  induction as generalizing s with
  | nil =>
    cases hr
    exact ⟨hs, [], rfl, by simp⟩
  | cons a as ih =>
    obtain ⟨u, hu, hr⟩ := run_cons_eq_some.mp hr
    obtain ⟨hiu, bs, hbs, hle⟩ := hstep s a u hs hC.1 hu
    obtain ⟨hit, bs', hbs', hle'⟩ := ih hiu (hC.2 u hu) hr
    refine ⟨hit, bs ++ bs', ?_, ?_⟩
    · rw [run_append, hbs]
      exact hbs'
    · rw [List.countP_append, List.countP_cons, Nat.mul_add]
      omega

end Steps
