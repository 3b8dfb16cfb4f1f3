import AuraHttpd.Proofs.NodeEvents

/-!
# Every event is delivered once, and soon

The replies to requests for events list what has arrived, in order, each event in one of them
(`events_in_order`): how many were listed (`delivered`) follows from the arrivals and the requests
alone.  As a reply takes the first half of the queue, the place of an event that stays halves with
every reply, whatever arrives behind it; of `syncEvents` places none is left after seven
(`events_within_seven`).
-/

namespace AuraHttpd

open CString StepSystem

variable {L : NodeLibs} {mpoint : Mpoint}

/-- The event that arrives. -/
def NodeEvent.arrival : NodeEvent → Option (AuraObject × AuraBuffer)
  | .arrive o buf => some (o, buf)
  | _ => none

/-- The event is a request for events. -/
def NodeEvent.isEvents : NodeEvent → Bool
  | .events _ => true
  | _ => false

/-- What has arrived. -/
def arrivals (es : List NodeEvent) : List (AuraObject × AuraBuffer) :=
  es.filterMap NodeEvent.arrival

/-- What a reply takes of `n` events of which `d` have been listed before. -/
def nextDelivered (n d : ℕ) : ℕ := d + (n - d + 1) / 2

/-- How many events have been listed, and how many have arrived. -/
def counts (es : List NodeEvent) : ℕ × ℕ :=
  es.foldl (fun c e =>
    (if e.isEvents then nextDelivered c.2 c.1 else c.1,
      c.2 + (e.arrival.toList).length)) (0, 0)

/-- How many of the events that have arrived were listed in replies. -/
def delivered (es : List NodeEvent) : ℕ := (counts es).1

section Counts

variable (es : List NodeEvent) (e : NodeEvent)

theorem arrivals_concat : arrivals (es ++ [e]) = arrivals es ++ e.arrival.toList := by
  rcases he : e.arrival with _ | a <;> simp [arrivals, he]

theorem counts_arrivals : (counts es).2 = (arrivals es).length := by
  induction es using List.reverseRecOn with
  | nil => rfl
  | append_singleton es e ih =>
    rw [arrivals_concat, List.length_append, ← ih]
    simp [counts]

theorem delivered_concat : delivered (es ++ [e])
    = if e.isEvents then nextDelivered (arrivals es).length (delivered es) else delivered es := by
  rw [← counts_arrivals]
  simp [delivered, counts]

theorem delivered_le : delivered es ≤ (arrivals es).length := by
  induction es using List.reverseRecOn with
  | nil => exact le_rfl
  | append_singleton es e ih =>
    rw [delivered_concat, arrivals_concat, List.length_append]
    split_ifs
    · unfold nextDelivered
      omega
    · omega

end Counts

section Run

variable {routes : Routes} {es : List NodeEvent} {s : NodeFs}

/-- What is queued is what has arrived and was not listed yet. -/
theorem queue_of_run (h : run (nodeStep L mpoint) (nodeMount mpoint routes) es = some s) :
    s.queue = (arrivals es).drop (delivered es) := by
  refine run_history (I := fun es s => s.queue = (arrivals es).drop (delivered es)) rfl
    (fun es s e s' _ hI _ hs => ?_) es (along_true es _) h
  have hle := delivered_le es
  rw [delivered_concat, arrivals_concat]
  cases nodeTrans_of_step hs with
  | arrive hlt =>
    simp only [NodeEvent.isEvents, NodeEvent.arrival, Option.toList_some, Bool.false_eq_true,
      if_false]
    rw [List.drop_append_of_le_length hle, ← hI]
  | @events c list queue hm hc hl =>
    obtain ⟨js, -, -, hrest⟩ := events_half (nodeTrans_of_step hs)
    simp only [NodeEvent.isEvents, NodeEvent.arrival, Option.toList_none, List.append_nil, if_true]
    rw [hI, List.drop_drop, List.length_drop] at hrest
    exact hrest
  | _ => simpa [NodeEvent.isEvents, NodeEvent.arrival] using hI

theorem queue_le (h : run (nodeStep L mpoint) (nodeMount mpoint routes) es = some s) :
    s.queue.length ≤ syncEvents := by
  refine run_inv (I := fun s : NodeFs => s.queue.length ≤ syncEvents) (C := fun _ _ => True)
    (fun s e s' hI _ hs => ?_) es (Nat.zero_le _) (along_true es _) h
  cases nodeTrans_of_step hs with
  | arrive hlt =>
    rw [List.length_append]
    exact hlt
  | @events c list queue hm hc hl =>
    obtain ⟨js, -, -, hrest⟩ := events_half (nodeTrans_of_step hs)
    rw [hrest, List.length_drop]
    exact (Nat.sub_le _ _).trans hI
  | _ => exact hI

end Run

/-- In every run the replies to requests for events list what has arrived, in order, without a gap
and nothing twice, and the queue holds the rest. -/
theorem events_in_order (L : NodeLibs) (mpoint : Mpoint) (routes : Routes) (es : List NodeEvent)
    (s : NodeFs) (h : run (nodeStep L mpoint) (nodeMount mpoint routes) es = some s) :
    s.queue = (arrivals es).drop (delivered es)
      ∧ ∀ es₁ c, es₁ ++ [.events c] <+: es → ∃ s₁ s₂ js,
        run (nodeStep L mpoint) (nodeMount mpoint routes) es₁ = some s₁
        ∧ nodeStep L mpoint s₁ (.events c) = some s₂
        ∧ s₂.replies = s₁.replies ++ [(s₁.calls.request c, .array js)]
        ∧ (((arrivals es).drop (delivered es₁)).take
          (delivered (es₁ ++ [.events c]) - delivered es₁)).mapM (eventToJson L) = some js := by
  refine ⟨queue_of_run h, fun es₁ c hpre => ?_⟩
  obtain ⟨s₂, hs₂⟩ := run_of_prefix h hpre
  obtain ⟨s₁, hs₁, hstep⟩ := run_concat hs₂
  obtain ⟨js, hjs, hreply, -⟩ := events_half (nodeTrans_of_step hstep)
  refine ⟨s₁, s₂, js, hs₁, hstep, hreply, ?_⟩
  -- what arrives later stands behind what the reply takes
  obtain ⟨es₂, rfl⟩ := hpre
  have hq := queue_of_run hs₁
  have hle := delivered_le es₁
  have hcount : delivered (es₁ ++ [.events c]) - delivered es₁ = (s₁.queue.length + 1) / 2 := by
    rw [delivered_concat, hq, List.length_drop]
    simp [NodeEvent.isEvents, nextDelivered]
  have harr : arrivals (es₁ ++ [.events c] ++ es₂) = arrivals es₁ ++ arrivals es₂ := by
    rw [arrivals, List.filterMap_append, List.filterMap_append]
    exact congrArg (· ++ _) (List.append_nil _)
  rw [hcount, harr, List.drop_append_of_le_length hle, ← hq,
    List.take_append_of_le_length (by omega)]
  exact hjs

/-- The places up to and with the one the event `i` has in the queue, if it has not been listed. -/
theorem rank_step (es : List NodeEvent) (e : NodeEvent) {i : ℕ} (hi : i < (arrivals es).length) :
    i + 1 - delivered (es ++ [e]) ≤ i + 1 - delivered es
      ∧ (e.isEvents = true → i + 1 - delivered (es ++ [e]) ≤ (i + 1 - delivered es) / 2) := by
  rw [delivered_concat]
  unfold nextDelivered
  split_ifs with he
  · omega
  · exact ⟨le_rfl, fun h => absurd h he⟩

/-- Every request for events halves the rank of an event that has arrived. -/
theorem rank_le (es₁ : List NodeEvent) {i : ℕ} (hi : i < (arrivals es₁).length)
    (es₂ : List NodeEvent) :
    i + 1 - delivered (es₁ ++ es₂)
      ≤ (i + 1 - delivered es₁) / 2 ^ es₂.countP NodeEvent.isEvents := by
  induction es₂ using List.reverseRecOn with
  | nil => simp
  | append_singleton es₂ e ih =>
    have hi' : i < (arrivals (es₁ ++ es₂)).length := by
      rw [arrivals, List.filterMap_append, List.length_append]
      exact hi.trans_le (Nat.le_add_right _ _)
    obtain ⟨hle, hhalf⟩ := rank_step (es₁ ++ es₂) e hi'
    rw [← List.append_assoc, List.countP_append, List.countP_singleton]
    split_ifs with he
    · rw [pow_succ, ← Nat.div_div_eq_div_mul]
      exact (hhalf he).trans (Nat.div_le_div_right ih)
    · exact hle.trans ih

/-- In every run an event is listed at the latest in the seventh reply to a request for events after
it has arrived, whatever arrives between them: it is then one of those in front of the queue. -/
theorem events_within_seven (L : NodeLibs) (mpoint : Mpoint) (routes : Routes)
    (es₁ es₂ : List NodeEvent) (s : NodeFs)
    (h : run (nodeStep L mpoint) (nodeMount mpoint routes) (es₁ ++ es₂) = some s)
    (i : ℕ) (hi : i < (arrivals es₁).length)
    (hseven : 7 ≤ es₂.countP NodeEvent.isEvents) :
    i < delivered (es₁ ++ es₂)
      ∧ s.queue = (arrivals (es₁ ++ es₂)).drop (delivered (es₁ ++ es₂)) := by
  obtain ⟨s₁, hs₁⟩ := run_of_prefix h (es₁.prefix_append es₂)
  have hqueue := queue_le hs₁
  rw [queue_of_run hs₁, List.length_drop] at hqueue
  have hrank := rank_le es₁ hi es₂
  have hpow : 2 ^ 7 ≤ 2 ^ es₂.countP NodeEvent.isEvents := Nat.pow_le_pow_right (by decide) hseven
  have hzero : (i + 1 - delivered es₁) / 2 ^ es₂.countP NodeEvent.isEvents = 0 := by
    refine Nat.div_eq_of_lt (lt_of_lt_of_le ?_ hpow)
    simp only [syncEvents] at hqueue
    omega
  exact ⟨by omega, queue_of_run h⟩

/-- Both events of `twoEventsRun` are listed, one in each reply. -/
theorem events_in_order_twoEventsRun :
    ∃ s, run (nodeStep .plain onlineMpoint) (nodeMount onlineMpoint .empty)
        (twoEventsRun ++ [.events 0, .events 0]) = some s ∧ s.queue = [] := by
  refine ⟨_, rfl, ?_⟩
  exact (events_in_order .plain onlineMpoint .empty (twoEventsRun ++ [.events 0, .events 0]) _
    rfl).1

theorem events_within_seven_twoEventsRun :
    1 < delivered (twoEventsRun ++ List.replicate 7 (.events 0)) :=
  (events_within_seven .plain onlineMpoint .empty twoEventsRun (List.replicate 7 (.events 0)) _ rfl
    1 (by decide) (by decide)).1

end AuraHttpd
