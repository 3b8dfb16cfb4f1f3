import Mathlib.Data.List.Induction
import Mathlib.Tactic.Common

/-!
# Runs of a partial step function

A system is a step function that may refuse an event.  `run` takes a list of events one after
another, and `Along` says that a condition holds of each event where it is taken.  A property
kept by every step that meets the condition holds wherever a run meeting it leads (`run_inv`),
also when the property speaks of the events taken so far (`run_history`).
-/

namespace StepSystem

variable {σ ε : Type*} (step : σ → ε → Option σ)

/-- The state the events lead to, if none of them is refused. -/
def run : σ → List ε → Option σ
  | s, [] => some s
  | s, e :: es => (step s e).bind fun s' => run s' es

/-- `C` holds of each event of the run and the state it is taken in. -/
def Along (C : σ → ε → Prop) : σ → List ε → Prop
  | _, [] => True
  | s, e :: es => C s e ∧ ∀ s', step s e = some s' → Along C s' es

variable {step}

theorem run_cons {s t : σ} {e : ε} {es : List ε} (h : run step s (e :: es) = some t) :
    ∃ s', step s e = some s' ∧ run step s' es = some t := by
  simpa [run, Option.bind_eq_some_iff] using h

theorem run_append : ∀ (es fs : List ε) (s : σ),
    run step s (es ++ fs) = (run step s es).bind fun s' => run step s' fs
  | [], fs, s => rfl
  | e :: es, fs, s => by
    simp only [List.cons_append, run, Option.bind_assoc]
    exact congrArg _ (funext fun s' => run_append es fs s')

theorem run_concat {s t : σ} {es : List ε} {e : ε} (h : run step s (es ++ [e]) = some t) :
    ∃ s', run step s es = some s' ∧ step s' e = some t := by
  rw [run_append, Option.bind_eq_some_iff] at h
  obtain ⟨s', hs', ht⟩ := h
  obtain ⟨t', ht', h⟩ := run_cons ht
  obtain rfl : t' = t := by simpa [run] using h
  exact ⟨s', hs', ht'⟩

/-- A condition on events alone holds along a run if it holds of each of them. -/
theorem along_of_forall {C : ε → Prop} : ∀ {es : List ε} {s : σ}, (∀ e ∈ es, C e) →
    Along step (fun _ => C) s es
  | [], _, _ => trivial
  | _ :: _, _, h => ⟨h _ List.mem_cons_self, fun _ _ =>
      along_of_forall fun e he => h e (List.mem_cons_of_mem _ he)⟩

/-- A condition that holds of each event in every state holds along the run. -/
theorem along_of_always {C : σ → ε → Prop} : ∀ {es : List ε} {s : σ}, (∀ e ∈ es, ∀ s, C s e) →
    Along step C s es
  | [], _, _ => trivial
  | _ :: _, s, h => ⟨h _ List.mem_cons_self s, fun _ _ =>
      along_of_always fun e he => h e (List.mem_cons_of_mem _ he)⟩

theorem Along.imp {C D : σ → ε → Prop} (hCD : ∀ s e, C s e → D s e) :
    ∀ {es : List ε} {s : σ}, Along step C s es → Along step D s es
  | [], _, _ => trivial
  | _ :: _, _, h => ⟨hCD _ _ h.1, fun s' hs' => (h.2 s' hs').imp hCD⟩

instance decidableAlong {C : σ → ε → Prop} [∀ s e, Decidable (C s e)] :
    ∀ (es : List ε) (s : σ), Decidable (Along step C s es)
  | [], _ => .isTrue trivial
  | e :: es, s =>
    match hs : step s e with
    | none => decidable_of_iff (C s e)
      ⟨fun h => ⟨h, fun s' hs' => by rw [hs] at hs'; cases hs'⟩, fun h => h.1⟩
    | some t =>
      have : Decidable (Along step C t es) := decidableAlong es t
      decidable_of_iff (C s e ∧ Along step C t es)
        ⟨fun h => ⟨h.1, fun s' hs' => by rw [hs] at hs'; cases hs'; exact h.2⟩,
          fun h => ⟨h.1, h.2 t hs⟩⟩

theorem along_true (es : List ε) (s : σ) : Along step (fun _ _ => True) s es :=
  along_of_forall fun _ _ => trivial

theorem Along.append {C : σ → ε → Prop} :
    ∀ {es fs : List ε} {s : σ}, Along step C s (es ++ fs) →
      Along step C s es ∧ ∀ s', run step s es = some s' → Along step C s' fs
  | [], fs, s, h => ⟨trivial, by rintro s' ⟨⟩; exact h⟩
  | e :: es, fs, s, h => by
    refine ⟨⟨h.1, fun s' hs' => (Along.append (h.2 s' hs')).1⟩, fun s' hs' => ?_⟩
    obtain ⟨u, hu, hs'⟩ := run_cons hs'
    exact (Along.append (h.2 u hu)).2 s' hs'

theorem Along.concat {C : σ → ε → Prop} {es : List ε} {e : ε} {s t : σ}
    (h : Along step C s (es ++ [e])) (ht : run step s es = some t) : C t e :=
  ((h.append).2 t ht).1

theorem along_concat {C : σ → ε → Prop} : ∀ {es : List ε} {e : ε} {s : σ},
    Along step C s es → (∀ t, run step s es = some t → C t e) → Along step C s (es ++ [e])
  | [], _, _, _, h' => ⟨h' _ rfl, fun _ _ => trivial⟩
  | _ :: _, _, _, h, h' => ⟨h.1, fun s' hs' => along_concat (h.2 s' hs') fun t ht =>
      h' t (by rw [run, hs']; exact ht)⟩

/-- A condition that holds of the last event of every prefix holds along the run. -/
theorem along_of_prefix {C : σ → ε → Prop} : ∀ {es : List ε} {s : σ},
    (∀ es₁ e t, es₁ ++ [e] <+: es → run step s es₁ = some t → C t e) → Along step C s es
  | [], _, _ => trivial
  | e :: es, s, h => by
    refine ⟨h [] e s (by simp) rfl, fun s' hs' => along_of_prefix fun es₁ e' t hpre ht => ?_⟩
    refine h (e :: es₁) e' t (by simpa using hpre) ?_
    rw [run, hs']
    exact ht

theorem run_of_prefix {s t : σ} {es es₁ : List ε} (h : run step s es = some t)
    (hpre : es₁ <+: es) : ∃ s₁, run step s es₁ = some s₁ := by
  obtain ⟨es₂, rfl⟩ := hpre
  rw [run_append, Option.bind_eq_some_iff] at h
  obtain ⟨s₁, hs₁, -⟩ := h
  exact ⟨s₁, hs₁⟩

theorem Along.of_prefix {C : σ → ε → Prop} {s : σ} {es es₁ : List ε} (h : Along step C s es)
    (hpre : es₁ <+: es) : Along step C s es₁ := by
  obtain ⟨es₂, rfl⟩ := hpre
  exact h.append.1

/-- A property that every step meeting `C` keeps holds wherever a run meeting `C` leads. -/
theorem run_inv {C : σ → ε → Prop} {I : σ → Prop}
    (hstep : ∀ s e s', I s → C s e → step s e = some s' → I s') :
    ∀ (es : List ε) {s t : σ}, I s → Along step C s es → run step s es = some t → I t
  | [], s, t, hI, _, h => by
    obtain rfl : s = t := by simpa [run] using h
    exact hI
  | e :: es, s, t, hI, hC, h => by
    obtain ⟨s', hs', ht⟩ := run_cons h
    exact run_inv hstep es (hstep s e s' hI hC.1 hs') (hC.2 s' hs') ht

/-- As `run_inv`, for a property of the events taken so far and the state they lead to. -/
theorem run_history {C : σ → ε → Prop} {I : List ε → σ → Prop} {s₀ : σ} (h₀ : I [] s₀)
    (hstep : ∀ es s e s', run step s₀ es = some s → I es s → C s e → step s e = some s' →
      I (es ++ [e]) s') (es : List ε) :
    ∀ {t : σ}, Along step C s₀ es → run step s₀ es = some t → I es t := by
  induction es using List.reverseRecOn with
  | nil =>
    intro t _ h
    obtain rfl : s₀ = t := by simpa [run] using h
    exact h₀
  | append_singleton es e ih =>
    intro t hC h
    obtain ⟨s, hs, ht⟩ := run_concat h
    exact hstep es s e t hs (ih hC.append.1 hs) (hC.concat hs) ht

/-- A run whose events are either done alike by another system or not noticed there is, for the
other system, the run of the former. -/
theorem run_filter {τ : Type*} {step' : τ → ε → Option τ} {own : ε → Bool} {R : σ → τ → Prop}
    {C : σ → ε → Prop}
    (hown : ∀ s t e s', R s t → own e = true → step s e = some s' →
      ∃ t', step' t e = some t' ∧ R s' t')
    (hother : ∀ s t e s', R s t → own e = false → C s e → step s e = some s' → R s' t) :
    ∀ (es : List ε) {s s' : σ} {t : τ}, R s t → Along step C s es → run step s es = some s' →
      ∃ t', run step' t (es.filter own) = some t' ∧ R s' t'
  | [], s, s', t, hR, _, h => by
    obtain rfl : s = s' := by simpa [run] using h
    exact ⟨t, rfl, hR⟩
  | e :: es, s, s', t, hR, hC, h => by
    obtain ⟨s₁, hs₁, hrun⟩ := run_cons h
    rcases he : own e with _ | _
    · rw [List.filter_cons_of_neg (by simp [he])]
      exact run_filter hown hother es (hother s t e s₁ hR he hC.1 hs₁) (hC.2 s₁ hs₁) hrun
    · obtain ⟨t₁, ht₁, hR₁⟩ := hown s t e s₁ hR he hs₁
      obtain ⟨t', ht', hR'⟩ := run_filter hown hother es hR₁ (hC.2 s₁ hs₁) hrun
      rw [List.filter_cons_of_pos he]
      exact ⟨t', by rw [run, ht₁]; exact ht', hR'⟩

end StepSystem
