import Mathlib.Tactic.Common

/-!
# Programs that make calls

A `Script` is what a program does on a given input as far as others can see it: the calls it
makes, and how it ends.  `play` runs a script against a handler of its calls that has a state of
its own and can halt the program; the calls behind the one that halts it are not made.  Playing a
sequence of two programs is playing the first and, unless it was halted, the second
(`play_bind`).
-/

universe u

@[simp] theorem Except.ok_bind {ε : Type*} {α β : Type u} (a : α) (f : α → Except ε β) :
    (Except.ok a >>= f) = f a := rfl

@[simp] theorem Except.error_bind {ε : Type*} {α β : Type u} (e : ε) (f : α → Except ε β) :
    (Except.error e >>= f) = Except.error e := rfl

theorem Except.bind_eq_ok {ε : Type*} {α β : Type u} {x : Except ε α} {f : α → Except ε β}
    {b : β} : (x >>= f) = Except.ok b ↔ ∃ a, x = Except.ok a ∧ f a = Except.ok b := by
  cases x <;> simp

/-- The result has `P`, an error `Q`. -/
def Except.Sat {ε α : Type*} (P : α → Prop) (Q : ε → Prop) : Except ε α → Prop
  | .ok a => P a
  | .error e => Q e

theorem Except.Sat.bind {ε : Type*} {α β : Type u} {P : α → Prop} {P' : β → Prop} {Q : ε → Prop}
    {x : Except ε α} {f : α → Except ε β} (hx : x.Sat P Q) (hf : ∀ a, P a → (f a).Sat P' Q) :
    (x >>= f).Sat P' Q := by
  rcases x with e | a
  · exact hx
  · exact hf a hx

theorem Except.Sat.mono {ε α : Type*} {P P' : α → Prop} {Q : ε → Prop} {x : Except ε α}
    (hx : x.Sat P Q) (h : ∀ a, P a → P' a) : x.Sat P' Q := by
  rcases x with e | a
  · exact hx
  · exact h a hx

/-- The calls a program makes, and its result or the fault it ends with. -/
structure Script (κ φ : Type*) (α : Type u) where
  calls : List κ
  outcome : Except φ α

namespace Script

variable {κ φ : Type*} {α β σ : Type u}

def emit (c : κ) : Script κ φ PUnit.{u + 1} := ⟨[c], .ok ⟨⟩⟩

def fault (f : φ) : Script κ φ α := ⟨[], .error f⟩

instance : Monad (Script κ φ) where
  pure a := ⟨[], .ok a⟩
  bind x f :=
    match x.outcome with
    | .ok a => ⟨x.calls ++ (f a).calls, (f a).outcome⟩
    | .error e => ⟨x.calls, .error e⟩

@[simp] theorem bind_ok (cs : List κ) (a : α) (f : α → Script κ φ β) :
    ((⟨cs, .ok a⟩ : Script κ φ α) >>= f) = ⟨cs ++ (f a).calls, (f a).outcome⟩ := rfl

@[simp] theorem bind_error (cs : List κ) (e : φ) (f : α → Script κ φ β) :
    ((⟨cs, .error e⟩ : Script κ φ α) >>= f) = ⟨cs, .error e⟩ := rfl

theorem bind_emit (cs : List κ) (a : α) (c : κ) (f : PUnit.{u + 1} → Script κ φ β) :
    ((⟨cs, .ok a⟩ : Script κ φ α) >>= fun _ => emit c >>= f)
      = (⟨cs ++ [c], .ok ⟨⟩⟩ : Script κ φ PUnit.{u + 1}) >>= f := by
  rw [emit, bind_ok, bind_ok, bind_ok, List.append_assoc]

theorem mem_calls_bind {x : Script κ φ α} {f : α → Script κ φ β} {c : κ}
    (h : c ∈ (x >>= f).calls) : c ∈ x.calls ∨ ∃ a, c ∈ (f a).calls := by
  obtain ⟨cs, out⟩ := x
  rcases out with e | a
  · exact .inl h
  · rcases List.mem_append.1 h with h | h
    · exact .inl h
    · exact .inr ⟨a, h⟩

variable (act : σ → κ → Except φ σ) (halted : σ → Bool)

/-- The calls are handled one after another, up to one that halts. -/
def replay : σ → List κ → Except φ σ
  | s, [] => .ok s
  | s, c :: cs => do
    let s ← act s c
    if halted s then .ok s else replay s cs

/-- The state after the calls, with the result of the program unless it was halted. -/
def play (s : σ) (x : Script κ φ α) : Except φ (σ × Option α) := do
  let s ← replay act halted s x.calls
  if halted s then .ok (s, none) else x.outcome.map fun a => (s, some a)

variable {act halted}

@[simp] theorem replay_nil (s : σ) : replay act halted s [] = .ok s := rfl

theorem replay_cons (s : σ) (c : κ) (cs : List κ) :
    replay act halted s (c :: cs)
      = (act s c).bind fun s => if halted s then .ok s else replay act halted s cs := rfl

theorem replay_cons_ok {s s' : σ} {c : κ} (hact : act s c = .ok s') (hhalt : halted s' = false)
    (cs : List κ) : replay act halted s (c :: cs) = replay act halted s' cs := by
  rw [replay_cons, hact]
  simp [Except.bind, hhalt]

theorem replay_append : ∀ (cs ds : List κ) (s : σ), halted s = false →
    replay act halted s (cs ++ ds) = (replay act halted s cs).bind fun s =>
      if halted s then .ok s else replay act halted s ds
  | [], ds, s, h => by simp [Except.bind, h]
  | c :: cs, ds, s, h => by
    rw [List.cons_append, replay_cons, replay_cons]
    rcases act s c with e | s'
    · rfl
    · simp only [Except.bind]
      cases hs : halted s' with
      | true => simp [hs]
      | false => simpa [Except.bind] using replay_append cs ds s' hs

/-- Calls that are all made without a halt. -/
theorem replay_append_ok {s s' : σ} {cs ds : List κ} (h : halted s = false)
    (hr : replay act halted s (cs ++ ds) = .ok s') (h' : halted s' = false) :
    ∃ s₁, replay act halted s cs = .ok s₁ ∧ halted s₁ = false
      ∧ replay act halted s₁ ds = .ok s' := by
  rw [replay_append cs ds s h] at hr
  rcases hcs : replay act halted s cs with e | s₁ <;> rw [hcs] at hr
  · cases hr
  simp only [Except.bind] at hr
  cases h₁ : halted s₁ with
  | true =>
    rw [h₁, if_pos rfl] at hr
    cases hr
    rw [h₁] at h'
    cases h'
  | false => exact ⟨s₁, rfl, h₁, by simpa [h₁] using hr⟩

/-- A single call made without a halt. -/
theorem replay_single {s s' : σ} {c : κ} (hr : replay act halted s [c] = .ok s') :
    act s c = .ok s' := by
  rw [replay_cons] at hr
  rcases hc : act s c with e | s₁ <;> rw [hc] at hr
  · cases hr
  · simpa [Except.bind] using hr

@[simp] theorem play_pure {s : σ} (h : halted s = false) (a : α) :
    play act halted s (⟨[], .ok a⟩ : Script κ φ α) = .ok (s, some a) := by
  simp [play, h, Except.map]

@[simp] theorem play_fault {s : σ} (h : halted s = false) (f : φ) :
    play act halted s (fault f : Script κ φ α) = .error f := by
  simp [play, fault, h, Except.map]

theorem play_emit (s : σ) (c : κ) :
    play act halted s (emit c)
      = (act s c).map fun s => (s, if halted s then none else some ⟨⟩) := by
  simp only [play, emit, replay_cons, bind, Except.bind, replay_nil]
  rcases act s c with e | s'
  · rfl
  · cases hs : halted s' <;> simp [hs, Except.map]

theorem play_bind {s : σ} (h : halted s = false) (x : Script κ φ α) (f : α → Script κ φ β) :
    play act halted s (x >>= f) = (play act halted s x).bind fun r =>
      match r.2 with
      | none => .ok (r.1, none)
      | some a => play act halted r.1 (f a) := by
  obtain ⟨cs, out⟩ := x
  rcases out with e | a
  · rw [bind_error]
    simp only [play, bind, Except.bind]
    rcases replay act halted s cs with e' | s'
    · rfl
    · cases hs : halted s' <;> simp [hs, Except.map]
  · rw [bind_ok]
    simp only [play, bind, replay_append cs _ s h]
    rcases replay act halted s cs with e' | s'
    · rfl
    · cases hs : halted s' <;> simp [hs, Except.bind, Except.map]

theorem bind_eq_ok {x : Script κ φ α} {f : α → Script κ φ β} {cs : List κ} {b : β} :
    x >>= f = ⟨cs, .ok b⟩
      ↔ ∃ xs a ys, x = ⟨xs, .ok a⟩ ∧ f a = ⟨ys, .ok b⟩ ∧ cs = xs ++ ys := by
  obtain ⟨xs, out⟩ := x
  rcases out with e | a
  · simp
  rw [bind_ok]
  rcases hf : f a with ⟨ys, out⟩
  constructor
  · intro h
    cases h
    exact ⟨xs, a, ys, rfl, hf, rfl⟩
  · rintro ⟨xs', a', ys', h, hf', rfl⟩
    cases h
    rw [hf] at hf'
    cases hf'
    rfl

theorem outcome_bind_eq_ok {x : Script κ φ α} {f : α → Script κ φ β} {b : β} :
    (x >>= f).outcome = .ok b ↔ ∃ a, x.outcome = .ok a ∧ (f a).outcome = .ok b := by
  obtain ⟨cs, out⟩ := x
  rcases out with e | a
  · simp
  · rw [bind_ok]
    simp

theorem outcome_bind_eq_error {x : Script κ φ α} {f : α → Script κ φ β} {e : φ} :
    (x >>= f).outcome = .error e
      ↔ x.outcome = .error e ∨ ∃ a, x.outcome = .ok a ∧ (f a).outcome = .error e := by
  obtain ⟨cs, out⟩ := x
  rcases out with e' | a
  · simp
  · rw [bind_ok]
    simp

theorem bind_assoc {γ : Type u} (x : Script κ φ α) (f : α → Script κ φ β)
    (g : β → Script κ φ γ) : x >>= f >>= g = x >>= fun a => f a >>= g := by
  obtain ⟨cs, out⟩ := x
  rcases out with e | a
  · rfl
  rw [bind_ok, bind_ok]
  obtain ⟨ds, out⟩ := f a
  rcases out with e | b
  · rfl
  · simp

@[simp] theorem pure_bind (a : α) (f : α → Script κ φ β) : (pure a >>= f) = f a := rfl

/-- Only what is done on the results that there are matters. -/
theorem bind_congr_ok {x : Script κ φ α} {f g : α → Script κ φ β}
    (h : ∀ a, x.outcome = .ok a → f a = g a) : x >>= f = x >>= g := by
  obtain ⟨cs, out⟩ := x
  rcases out with e | a
  · rfl
  · rw [bind_ok, bind_ok, h a rfl]

/-- Programs that make the same calls, as far as `view` tells, and end alike. -/
structure Alike {ν : Type*} (view : κ → ν) (R : α → β → Prop) (x : Script κ φ α)
    (y : Script κ φ β) : Prop where
  calls : x.calls.map view = y.calls.map view
  outcome : (∃ a b, x.outcome = .ok a ∧ y.outcome = .ok b ∧ R a b)
    ∨ ∃ e, x.outcome = .error e ∧ y.outcome = .error e

section Alike

variable {ν : Type*} {view : κ → ν}

theorem Alike.pure {R : α → β → Prop} {a : α} {b : β} (h : R a b) :
    Alike view R (pure a : Script κ φ α) (pure b) := ⟨rfl, .inl ⟨a, b, rfl, rfl, h⟩⟩

theorem Alike.fault {R : α → β → Prop} (e : φ) :
    Alike view R (fault e : Script κ φ α) (fault e) := ⟨rfl, .inr ⟨e, rfl, rfl⟩⟩

theorem Alike.emit {c d : κ} (h : view c = view d) :
    Alike view (fun _ _ => True) (emit c : Script κ φ PUnit.{u + 1}) (emit d) :=
  ⟨by simp [Script.emit, h], .inl ⟨⟨⟩, ⟨⟩, rfl, rfl, trivial⟩⟩

theorem Alike.bind {α' β' : Type u} {R : α → β → Prop} {S : α' → β' → Prop} {x : Script κ φ α}
    {y : Script κ φ β} {f : α → Script κ φ α'} {g : β → Script κ φ β'} (h : Alike view R x y)
    (hfg : ∀ a b, x.outcome = .ok a → y.outcome = .ok b → R a b → Alike view S (f a) (g b)) :
    Alike view S (x >>= f) (y >>= g) := by
  obtain ⟨cs, out⟩ := x
  obtain ⟨ds, out'⟩ := y
  obtain ⟨hcalls, ⟨a, b, rfl, rfl, hab⟩ | ⟨e, rfl, rfl⟩⟩ := h
  · obtain ⟨hc, ho⟩ := hfg a b rfl rfl hab
    rw [bind_ok, bind_ok]
    exact ⟨by simpa [hc] using hcalls, ho⟩
  · rw [bind_error, bind_error]
    exact ⟨hcalls, .inr ⟨e, rfl, rfl⟩⟩

theorem Alike.mono {R S : α → β → Prop} {x : Script κ φ α} {y : Script κ φ β}
    (h : Alike view R x y) (hRS : ∀ a b, R a b → S a b) : Alike view S x y :=
  ⟨h.calls, h.outcome.imp_left fun ⟨a, b, ha, hb, hab⟩ => ⟨a, b, ha, hb, hRS a b hab⟩⟩

theorem Alike.map_right {β' : Type u} {R : α → β → Prop} {S : α → β' → Prop}
    {x : Script κ φ α} {y : Script κ φ β} {g : β → β'} (h : Alike view R x y)
    (hg : ∀ a b, R a b → S a (g b)) : Alike view S x (y >>= fun b => Pure.pure (g b)) := by
  obtain ⟨ds, out⟩ := y
  obtain ⟨hcalls, ⟨a, b, hx, rfl, hab⟩ | ⟨e, hx, rfl⟩⟩ := h
  · exact ⟨by simpa [Pure.pure] using hcalls, .inl ⟨a, g b, hx, rfl, hg a b hab⟩⟩
  · exact ⟨hcalls, .inr ⟨e, hx, rfl⟩⟩

theorem Alike.refl {R : α → α → Prop} (hR : ∀ a, R a a) (x : Script κ φ α) :
    Alike view R x x := by
  refine ⟨rfl, ?_⟩
  rcases hx : x.outcome with e | a
  · exact .inr ⟨e, rfl, rfl⟩
  · exact .inl ⟨a, a, rfl, rfl, hR a⟩

/-- A handler that sees no more of a call than `view` does ends alike on alike programs. -/
theorem replay_congr (hact : ∀ s c d, view c = view d → act s c = act s d) :
    ∀ {cs ds : List κ} (s : σ), cs.map view = ds.map view →
      replay act halted s cs = replay act halted s ds
  | [], [], _, _ => rfl
  | [], _ :: _, _, h => by simp at h
  | _ :: _, [], _, h => by simp at h
  | c :: cs, d :: ds, s, h => by
    obtain ⟨hcd, hrest⟩ := List.cons.inj h
    rw [replay_cons, replay_cons, hact s c d hcd]
    refine congrArg _ (funext fun s' => ?_)
    rw [replay_congr hact s' hrest]

end Alike

/-- Programs that make the same calls, as far as `view` tells, and end with the same result, and
not with the fault `e`. -/
structure Agree {ν : Type*} (view : κ → ν) (e : φ) (x y : Script κ φ α) : Prop where
  calls : x.calls.map view = y.calls.map view
  outcome : x.outcome = y.outcome
  alive : x.outcome ≠ .error e

section Agree

variable {ν : Type*} {view : κ → ν} {e : φ}

theorem agree_pure {a b : α} : Agree view e (pure a : Script κ φ α) (pure b) ↔ a = b :=
  ⟨fun h => Except.ok.inj h.outcome, fun h => ⟨rfl, h ▸ rfl, fun he => by cases he⟩⟩

theorem not_agree_fault {y : Script κ φ α} : ¬ Agree view e (fault e) y := fun h => h.alive rfl

theorem not_agree_fault_right {x : Script κ φ α} : ¬ Agree view e x (fault e) :=
  fun h => h.alive h.outcome

theorem agree_bind {x : Script κ φ α} {f g : α → Script κ φ β} (hx : x.outcome ≠ .error e) :
    Agree view e (x >>= f) (x >>= g)
      ↔ ∀ a, x.outcome = .ok a → Agree view e (f a) (g a) := by
  obtain ⟨cs, out⟩ := x
  rcases out with e' | a
  · rw [bind_error, bind_error]
    have hne : e' ≠ e := fun h => hx (congrArg Except.error h)
    exact ⟨fun _ _ h => (by cases h), fun _ => ⟨rfl, rfl, fun h => hne (Except.error.inj h)⟩⟩
  rw [bind_ok, bind_ok]
  constructor
  · rintro ⟨hcalls, hout, halive⟩ _ h
    cases h
    exact ⟨by simpa using hcalls, hout, halive⟩
  · intro h
    obtain ⟨hcalls, hout, halive⟩ := h a rfl
    exact ⟨by simpa using hcalls, hout, halive⟩

theorem agree_emit_bind {c d : κ} {f g : PUnit.{u + 1} → Script κ φ β} :
    Agree view e (emit c >>= f) (emit d >>= g)
      ↔ view c = view d ∧ Agree view e (f ⟨⟩) (g ⟨⟩) := by
  constructor
  · rintro ⟨hcalls, hout, halive⟩
    obtain ⟨hcd, hcalls⟩ := List.cons.inj hcalls
    exact ⟨hcd, hcalls, hout, halive⟩
  · rintro ⟨hcd, hcalls, hout, halive⟩
    exact ⟨congrArg₂ List.cons hcd hcalls, hout, halive⟩

/-- Programs agree where those do that they are alike. -/
theorem Alike.agree_iff {α' β' : Type u} {r : α' → β} {s : β' → β} {x : Script κ φ α'}
    {y : Script κ φ β'} {x' y' : Script κ φ β} (hx : Alike view (fun a b => r a = b) x x')
    (hy : Alike view (fun a b => s a = b) y y') :
    Agree view e x' y' ↔ x.calls.map view = y.calls.map view
      ∧ x.outcome.map r = y.outcome.map s ∧ x.outcome ≠ .error e := by
  have hout : ∀ {γ : Type u} {t : γ → β} {z : Script κ φ γ} {z' : Script κ φ β},
      Alike view (fun a b => t a = b) z z' → z'.outcome = z.outcome.map t := by
    rintro γ t z z' ⟨-, ⟨a, b, ha, hb, rfl⟩ | ⟨e, ha, hb⟩⟩ <;> rw [ha, hb] <;> rfl
  have halive : x'.outcome = .error e ↔ x.outcome = .error e := by
    rw [hout hx]
    rcases x.outcome with e' | a <;> simp [Except.map]
  constructor
  · rintro ⟨hcalls, ho, ha⟩
    rw [hout hx, hout hy] at ho
    exact ⟨hx.calls.trans (hcalls.trans hy.calls.symm), ho, mt halive.2 ha⟩
  · rintro ⟨hcalls, ho, ha⟩
    rw [← hout hx, ← hout hy] at ho
    exact ⟨hx.calls.symm.trans (hcalls.trans hy.calls), ho, mt halive.1 ha⟩

end Agree

/-- A handler that has been halted says so in the state it is left in. -/
theorem play_eq_none {s s' : σ} {x : Script κ φ α} (hp : play act halted s x = .ok (s', none)) :
    halted s' = true ∧ replay act halted s x.calls = .ok s' := by
  simp only [play, bind, Except.bind] at hp
  split at hp
  · cases hp
  · rename_i t ht
    split_ifs at hp with hs
    · cases hp
      exact ⟨hs, ht⟩
    · rcases hx : x.outcome with e | a <;> rw [hx] at hp <;> cases hp

theorem play_eq_some {s s' : σ} {x : Script κ φ α} {a : α}
    (hp : play act halted s x = .ok (s', some a)) :
    halted s' = false ∧ x.outcome = .ok a ∧ replay act halted s x.calls = .ok s' := by
  simp only [play, bind, Except.bind] at hp
  split at hp
  · cases hp
  · rename_i t ht
    split_ifs at hp with hs
    · cases hp
    · rcases hx : x.outcome with e | b <;> rw [hx] at hp <;> cases hp
      exact ⟨by simpa using hs, rfl, ht⟩

theorem play_of_replay {s s' : σ} {x : Script κ φ α} {a : α} (hx : x.outcome = .ok a)
    (hr : replay act halted s x.calls = .ok s') (hs : halted s' = false) :
    play act halted s x = .ok (s', some a) := by
  simp [play, hr, hs, hx, Except.map]

end Script
