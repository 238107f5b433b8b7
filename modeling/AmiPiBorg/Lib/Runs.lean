import Mathlib.Tactic

/-!
# Runs of a partial step function

`runs step s es` takes the steps `es` one after the other; it gives nothing as soon as one step does. `Along ok step s
es` says that every step the run takes meets a condition in the state it is taken from. An invariant of the steps that
meet the condition is one of such runs (`runs_inv`, and `runs_total` where the steps are always possible). `noted` keeps account of
what a run has gone through, and `noted_inv` is the rule for an invariant of the state and the note.
-/

set_option autoImplicit false

namespace ProgLib

variable {σ ε γ : Type} {step : σ → ε → Option σ}

/-- The state after the steps `es`. -/
def runs (step : σ → ε → Option σ) : σ → List ε → Option σ
  | s, [] => some s
  | s, e :: es => (step s e).bind fun s' => runs step s' es

/-- Every step of the run is taken from a state that allows it. -/
def Along (ok : σ → ε → Prop) (step : σ → ε → Option σ) : σ → List ε → Prop
  | _, [] => True
  | s, e :: es => ok s e ∧ ∀ s', step s e = some s' → Along ok step s' es

/-- What is noted of a run, one step after the other. -/
def noted (upd : σ → ε → γ → γ) (step : σ → ε → Option σ) : γ → σ → List ε → γ
  | g, _, [] => g
  | g, s, e :: es =>
    match step s e with
    | none => g
    | some s' => noted upd step (upd s e g) s' es

theorem along_cons {ok : σ → ε → Prop} {s s' : σ} {e : ε} {es : List ε} (h : step s e = some s') :
    Along ok step s (e :: es) ↔ ok s e ∧ Along ok step s' es := by
  refine and_congr_right fun _ => ⟨fun ha => ha s' h, fun ha t ht => ?_⟩
  rw [h, Option.some.injEq] at ht
  subst ht
  exact ha

theorem along_cons_none {ok : σ → ε → Prop} {s : σ} {e : ε} {es : List ε} (h : step s e = none) :
    Along ok step s (e :: es) ↔ ok s e := by
  refine and_iff_left fun t ht => ?_
  rw [h] at ht
  cases ht

/-- Members are gone through one by one, also where their type is finite. -/
instance (priority := high) decidableForallList {α : Type} {P : α → Prop} [DecidablePred P] (l : List α) :
    Decidable (∀ a ∈ l, P a) := List.decidableBAll P l

instance (priority := high) decidableForallOption {α : Type} {P : α → Prop} [DecidablePred P] (o : Option α) :
    Decidable (∀ a ∈ o, P a) := Option.decidableForallMem o

/-- Whether every step of a run is allowed can be found out by taking the run. -/
instance decidableAlong {ok : σ → ε → Prop} [∀ s e, Decidable (ok s e)] :
    ∀ (s : σ) (es : List ε), Decidable (Along ok step s es)
  | _, [] => .isTrue trivial
  | s, e :: es =>
    match h : step s e with
    | none => decidable_of_iff (ok s e) (along_cons_none h).symm
    | some s' =>
      have : Decidable (Along ok step s' es) := decidableAlong s' es
      decidable_of_iff (ok s e ∧ Along ok step s' es) (along_cons h).symm

@[simp] theorem runs_nil (s : σ) : runs step s [] = some s := rfl

theorem runs_cons {s s' : σ} {e : ε} {es : List ε} (h : step s e = some s') :
    runs step s (e :: es) = runs step s' es := by simp only [runs, h, Option.bind_some]

theorem runs_cons_some {s t : σ} {e : ε} {es : List ε} (h : runs step s (e :: es) = some t) :
    ∃ s', step s e = some s' ∧ runs step s' es = some t := Option.bind_eq_some_iff.1 h

theorem runs_append {s : σ} {es : List ε} (es' : List ε) :
    runs step s (es ++ es') = (runs step s es).bind fun s' => runs step s' es' := by
  induction es generalizing s with
  | nil => rfl
  | cons e es ih =>
    simp only [List.cons_append, runs]
    cases step s e with
    | none => rfl
    | some s' => exact ih

/-- A condition holds along a run in two parts if it holds along both. -/
theorem along_append {ok : σ → ε → Prop} {es es' : List ε} {s : σ} : Along ok step s (es ++ es') ↔
    Along ok step s es ∧ ∀ t, runs step s es = some t → Along ok step t es' := by
  induction es generalizing s with
  | nil =>
    refine ⟨fun h => ⟨trivial, fun t ht => ?_⟩, fun h => h.2 s rfl⟩
    cases ht
    exact h
  | cons e es ih =>
    constructor
    · rintro ⟨he, hes⟩
      refine ⟨⟨he, fun s' hs => (ih.1 (hes s' hs)).1⟩, fun t ht => ?_⟩
      obtain ⟨s', hs, ht⟩ := runs_cons_some ht
      exact (ih.1 (hes s' hs)).2 t ht
    · rintro ⟨⟨he, hes⟩, ht⟩
      refine ⟨he, fun s' hs => ih.2 ⟨hes s' hs, fun t h => ht t ?_⟩⟩
      rw [runs_cons hs]
      exact h

/-- **What every allowed step keeps holds after every run of allowed steps.** -/
theorem runs_inv {ok : σ → ε → Prop} (I : σ → Prop) (hstep : ∀ s e s', I s → ok s e → step s e = some s' → I s')
    {es : List ε} {s t : σ} (hI : I s) (ha : Along ok step s es) (h : runs step s es = some t) : I t := by
  induction es generalizing s with
  | nil =>
    cases h
    exact hI
  | cons e es ih =>
    obtain ⟨s', hs, ht⟩ := runs_cons_some h
    exact ih (hstep s e s' hI ha.1 hs) (ha.2 s' hs) ht

/-- What every step keeps holds after every run. -/
theorem runs_inv_all (I : σ → Prop) (hstep : ∀ s e s', I s → step s e = some s' → I s') {es : List ε} {s t : σ} (hI : I s)
    (h : runs step s es = some t) : I t := by
  induction es generalizing s with
  | nil =>
    cases h
    exact hI
  | cons e es ih =>
    obtain ⟨s', hs, ht⟩ := runs_cons_some h
    exact ih (hstep s e s' hI hs) ht

theorem noted_cons {upd : σ → ε → γ → γ} {s s' : σ} {e : ε} {es : List ε} {g : γ} (h : step s e = some s') :
    noted upd step g s (e :: es) = noted upd step (upd s e g) s' es := by simp only [noted, h]

theorem noted_append {upd : σ → ε → γ → γ} {es es' : List ε} {s t : σ} {g : γ} (h : runs step s es = some t) :
    noted upd step g s (es ++ es') = noted upd step (noted upd step g s es) t es' := by
  induction es generalizing s g with
  | nil =>
    cases h
    rfl
  | cons e es ih =>
    obtain ⟨s', hs, ht⟩ := runs_cons_some h
    rw [List.cons_append, noted_cons hs, noted_cons hs]
    exact ih ht

/-- **An invariant of the state and of what is noted** holds after every run of allowed steps. -/
theorem noted_inv {ok : σ → ε → Prop} {upd : σ → ε → γ → γ} (I : σ → γ → Prop)
    (hstep : ∀ s e s' g, I s g → ok s e → step s e = some s' → I s' (upd s e g)) {es : List ε} {s t : σ} {g : γ}
    (hI : I s g) (ha : Along ok step s es) (h : runs step s es = some t) : I t (noted upd step g s es) := by
  induction es generalizing s g with
  | nil =>
    cases h
    exact hI
  | cons e es ih =>
    obtain ⟨s', hs, ht⟩ := runs_cons_some h
    rw [noted_cons hs]
    exact ih (hstep s e s' g hI ha.1 hs) (ha.2 s' hs) ht

/-- **Steps that are always possible and keep an invariant** make up runs that are. -/
theorem runs_total (I : σ → Prop) (hstep : ∀ s e, I s → ∃ s', step s e = some s' ∧ I s') (es : List ε) {s : σ}
    (hI : I s) : ∃ t, runs step s es = some t ∧ I t := by
  induction es generalizing s with
  | nil => exact ⟨s, rfl, hI⟩
  | cons e es ih =>
    obtain ⟨s', hs, hI'⟩ := hstep s e hI
    obtain ⟨t, ht, hIt⟩ := ih hI'
    exact ⟨t, (runs_cons hs).trans ht, hIt⟩

/-- **Steps that are possible where they are allowed**, and keep an invariant, make up runs that are. -/
theorem runs_some {ok : σ → ε → Prop} (I : σ → Prop) (hstep : ∀ s e, I s → ok s e → ∃ s', step s e = some s' ∧ I s')
    {es : List ε} {s : σ} (hI : I s) (ha : Along ok step s es) : ∃ t, runs step s es = some t ∧ I t := by
  induction es generalizing s with
  | nil => exact ⟨s, rfl, hI⟩
  | cons e es ih =>
    obtain ⟨s', hs, hI'⟩ := hstep s e hI ha.1
    obtain ⟨t, ht, hIt⟩ := ih hI' (ha.2 s' hs)
    exact ⟨t, (runs_cons hs).trans ht, hIt⟩

/-- A condition on the events alone can be added. -/
theorem along_and {ok : σ → ε → Prop} {P : ε → Prop} {es : List ε} {s : σ} (h : Along ok step s es)
    (hP : ∀ e ∈ es, P e) : Along (fun s e => ok s e ∧ P e) step s es := by
  induction es generalizing s with
  | nil => trivial
  | cons e es ih =>
    rw [List.forall_mem_cons] at hP
    exact ⟨⟨h.1, hP.1⟩, fun s' hs => ih (h.2 s' hs) hP.2⟩

/-- A weaker condition. -/
theorem along_mono {ok ok' : σ → ε → Prop} {es : List ε} {s : σ} (h : ∀ s, ∀ e ∈ es, ok s e → ok' s e)
    (ha : Along ok step s es) : Along ok' step s es := by
  induction es generalizing s with
  | nil => trivial
  | cons e es ih =>
    exact ⟨h s e List.mem_cons_self ha.1, fun s' hs => ih (fun s e he => h s e (List.mem_cons_of_mem _ he)) (ha.2 s' hs)⟩

/-- A condition that the events of a run meet in every state holds along it. -/
theorem along_of_mem {ok : σ → ε → Prop} {es : List ε} (h : ∀ e ∈ es, ∀ s, ok s e) (s : σ) : Along ok step s es := by
  induction es generalizing s with
  | nil => trivial
  | cons e es ih =>
    rw [List.forall_mem_cons] at h
    exact ⟨h.1 s, fun s' _ => ih h.2 s'⟩

/-- A condition that every step meets holds along every run. -/
theorem along_of_forall {ok : σ → ε → Prop} (h : ∀ s e, ok s e) (es : List ε) (s : σ) : Along ok step s es :=
  along_of_mem (fun e _ s => h s e) s

/-- **Two conditions that agree in the states of a run** hold along it together. The second may be used to get from one
of these states to the next. -/
theorem along_iff {ok P Q : σ → ε → Prop} (I : σ → Prop) (hpq : ∀ s e, I s → ok s e → (P s e ↔ Q s e))
    (hstep : ∀ s e s', I s → ok s e → Q s e → step s e = some s' → I s') {es : List ε} {s : σ} (hI : I s)
    (ha : Along ok step s es) : Along P step s es ↔ Along Q step s es := by
  induction es generalizing s with
  | nil => exact Iff.rfl
  | cons e es ih =>
    have he := hpq s e hI ha.1
    constructor
    · rintro ⟨hp, hps⟩
      refine ⟨he.1 hp, fun s' hs => ?_⟩
      exact (ih (hstep s e s' hI ha.1 (he.1 hp) hs) (ha.2 s' hs)).1 (hps s' hs)
    · rintro ⟨hq, hqs⟩
      refine ⟨he.2 hq, fun s' hs => ?_⟩
      exact (ih (hstep s e s' hI ha.1 hq hs) (ha.2 s' hs)).2 (hqs s' hs)

end ProgLib
