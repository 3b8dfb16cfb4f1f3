import AuraHttpd.Proofs.NodeTable

/-!
# Queued events

The loop of `events` counts up to a queue that gets shorter with every turn, so it takes the first
half of it, rounded up (`eventsLoop_eq`).  A reply is complete exactly when at most one event has
arrived since the reply before it (`events_complete_iff`).
-/

namespace AuraHttpd

open CString StepSystem

variable {L : NodeLibs} {mpoint : Mpoint}

theorem eventsLoop_eq : ∀ {queue rest : List (AuraObject × AuraBuffer)} {i : ℕ}
    {list l : List Json}, eventsLoop L i list queue = some (l, rest) →
    ∃ js, (queue.take ((queue.length - i + 1) / 2)).mapM (eventToJson L) = some js
      ∧ l = list ++ js ∧ rest = queue.drop ((queue.length - i + 1) / 2)
  | [], rest, i, list, l, h => by
    cases h
    exact ⟨[], by simp, by simp, by simp⟩
  | evt :: queue, rest, i, list, l, h => by
    unfold eventsLoop at h
    split_ifs at h with hi
    · simp only [Option.bind_eq_bind, Option.bind_eq_some_iff] at h
      obtain ⟨jo, hjo, h⟩ := h
      obtain ⟨js, hjs, rfl, rfl⟩ := eventsLoop_eq h
      have hk : ((evt :: queue).length - i + 1) / 2 = (queue.length - (i + 1) + 1) / 2 + 1 := by
        rw [List.length_cons] at hi ⊢
        omega
      refine ⟨jo :: js, ?_, by simp, ?_⟩
      · rw [hk, List.take_succ_cons, List.mapM_cons, hjo, hjs]
        rfl
      · rw [hk, List.drop_succ_cons]
    · cases h
      have hk : ((evt :: queue).length - i + 1) / 2 = 0 := by omega
      rw [hk]
      exact ⟨[], by simp, by simp, by simp⟩

/-- The events that arrived since the last reply to a request for events. -/
def arrivedSince (es : List NodeEvent) : List (AuraObject × AuraBuffer) :=
  es.foldl (fun arrived e =>
    match e with
    | .arrive o buf => arrived ++ [(o, buf)]
    | .events _ => []
    | _ => arrived) []

/-- The reply lists what has arrived since the one before, in order, and nothing is left. -/
def EventsComplete (L : NodeLibs) (arrived : List (AuraObject × AuraBuffer)) (c : Conn)
    (s s' : NodeFs) : Prop :=
  (∃ js, arrived.mapM (eventToJson L) = some js
      ∧ s'.replies = s.replies ++ [(s.calls.request c, .array js)])
    ∧ s'.queue = []

/-- A reply lists the first half of the queue. -/
theorem events_half {s s' : NodeFs} {c : Conn} (ht : NodeTrans L mpoint s (.events c) s') :
    ∃ js, (s.queue.take ((s.queue.length + 1) / 2)).mapM (eventToJson L) = some js
      ∧ s'.replies = s.replies ++ [(s.calls.request c, .array js)]
      ∧ s'.queue = s.queue.drop ((s.queue.length + 1) / 2) := by
  cases ht with
  | events hm hc h =>
    obtain ⟨js, hjs, hl, hrest⟩ := eventsLoop_eq h
    exact ⟨js, hjs, by rw [hl, List.nil_append], hrest⟩

/-- While every reply empties the queue, it holds what has arrived since the last one. -/
theorem queue_arrived {routes : Routes} {es : List NodeEvent} {s : NodeFs}
    (h : run (nodeStep L mpoint) (nodeMount mpoint routes) es = some s)
    (hempty : ∀ es₁ c s₁ s₂, es₁ ++ [.events c] <+: es →
      run (nodeStep L mpoint) (nodeMount mpoint routes) es₁ = some s₁ →
      nodeStep L mpoint s₁ (.events c) = some s₂ → s₁.queue = arrivedSince es₁ → s₂.queue = []) :
    s.queue = arrivedSince es := by
  induction es using List.reverseRecOn generalizing s with
  | nil =>
    cases h
    rfl
  | append_singleton es e ih =>
    obtain ⟨t, ht, hs⟩ := run_concat h
    have hq := ih ht fun es₁ c s₁ s₂ hpre => hempty es₁ c s₁ s₂ (hpre.trans (es.prefix_append _))
    have htr := nodeTrans_of_step hs
    unfold arrivedSince at hq ⊢
    rw [List.foldl_append, List.foldl_cons, List.foldl_nil]
    cases htr with
    | events hm hc h' => exact hempty es _ t _ (List.prefix_refl _) ht hs hq
    | arrive hlt => simp [hq]
    | _ => exact hq

theorem events_complete_iff (L : NodeLibs) (mpoint : Mpoint) (routes : Routes)
    (es : List NodeEvent) (s : NodeFs)
    (h : run (nodeStep L mpoint) (nodeMount mpoint routes) es = some s) :
    (∀ es₁ c s₁ s₂, es₁ ++ [.events c] <+: es →
        run (nodeStep L mpoint) (nodeMount mpoint routes) es₁ = some s₁ →
        nodeStep L mpoint s₁ (.events c) = some s₂ →
        EventsComplete L (arrivedSince es₁) c s₁ s₂)
      ↔ ∀ es₁ c, es₁ ++ [.events c] <+: es → (arrivedSince es₁).length ≤ 1 := by
  constructor
  · intro hall es₁ c hpre
    obtain ⟨s₂, hs₂⟩ := run_of_prefix h hpre
    obtain ⟨s₁, hs₁, hstep⟩ := run_concat hs₂
    have hq : s₁.queue = arrivedSince es₁ := by
      refine queue_arrived hs₁ fun es₀ c' t t' hpre' ht ht' _ => ?_
      exact (hall es₀ c' t t' (hpre'.trans ((es₁.prefix_append _).trans hpre)) ht ht').2
    obtain ⟨js, -, -, hrest⟩ := events_half (nodeTrans_of_step hstep)
    have hlen := congrArg List.length ((hall es₁ c s₁ s₂ hpre hs₁ hstep).2.symm.trans hrest)
    rw [List.length_drop, List.length_nil] at hlen
    rw [← hq]
    omega
  · intro hfew es₁ c s₁ s₂ hpre hs₁ hstep
    have htake : ∀ {q : List (AuraObject × AuraBuffer)}, q.length ≤ 1 →
        q.take ((q.length + 1) / 2) = q ∧ q.drop ((q.length + 1) / 2) = [] := fun hq =>
      ⟨List.take_of_length_le (by omega), List.drop_eq_nil_of_le (by omega)⟩
    have hq : s₁.queue = arrivedSince es₁ := by
      refine queue_arrived hs₁ fun es₀ c' t t' hpre' ht ht' hqt => ?_
      obtain ⟨js, -, -, hrest⟩ := events_half (nodeTrans_of_step ht')
      rw [hrest]
      refine (htake ?_).2
      rw [hqt]
      exact hfew es₀ c' (hpre'.trans ((es₁.prefix_append _).trans hpre))
    obtain ⟨js, hjs, hreply, hrest⟩ := events_half (nodeTrans_of_step hstep)
    have hlen : s₁.queue.length ≤ 1 := by
      rw [hq]
      exact hfew es₁ c hpre
    rw [(htake hlen).1, hq] at hjs
    exact ⟨⟨js, hjs, hreply⟩, hrest.trans (htake hlen).2⟩

/-- An event arrives and is asked for, twice. -/
def oneByOneRun : List NodeEvent :=
  [.call .accept, .arrive pingObject ⟨[], [], 0⟩, .events 0, .arrive pingObject ⟨[], [], 0⟩,
    .events 0]

theorem events_complete_iff_oneByOneRun :
    ∃ s, run (nodeStep .plain onlineMpoint) (nodeMount onlineMpoint .empty) oneByOneRun = some s
      ∧ ∀ es₁ c s₁ s₂, es₁ ++ [.events c] <+: oneByOneRun →
        run (nodeStep .plain onlineMpoint) (nodeMount onlineMpoint .empty) es₁ = some s₁ →
        nodeStep .plain onlineMpoint s₁ (.events c) = some s₂ →
        EventsComplete .plain (arrivedSince es₁) c s₁ s₂ := by
  refine ⟨_, rfl, (events_complete_iff .plain onlineMpoint .empty oneByOneRun _ rfl).2 ?_⟩
  intro es₁ c hpre
  have hlen : es₁.length ≤ 4 := by
    have := hpre.length_le
    simp only [List.length_append, List.length_singleton] at this
    exact Nat.le_of_succ_le_succ this
  have htake : es₁ = oneByOneRun.take es₁.length :=
    List.prefix_iff_eq_take.1 ((es₁.prefix_append _).trans hpre)
  have hfew : ∀ n ≤ 4, (arrivedSince (oneByOneRun.take n)).length ≤ 1 := by decide
  rw [htake]
  exact hfew _ hlen

/-- Two events arrive before they are asked for. -/
def twoEventsRun : List NodeEvent :=
  [.call .accept, .arrive pingObject ⟨[], [], 0⟩, .arrive pingObject ⟨[], [], 0⟩]

theorem twoEventsRun_leaves_one :
    ∃ s s', run (nodeStep .plain onlineMpoint) (nodeMount onlineMpoint .empty) twoEventsRun
        = some s
      ∧ nodeStep .plain onlineMpoint s (.events 0) = some s'
      ∧ s'.queue.length = 1
      ∧ ¬ EventsComplete .plain (arrivedSince twoEventsRun) 0 s s' := by
  refine ⟨_, _, rfl, rfl, rfl, fun h => ?_⟩
  cases h.2

end AuraHttpd
