import AuraHttpd.Json

/-!
# What libevent's HTTP server provides

`RouteTable` holds the callbacks registered with `evhttp_set_cb`, which refuses a path that has
one; so no path is there twice.  A `Reply` is what a handler sends.
-/

namespace AuraHttpd

open CString

/-- The registered paths, each with what its callback is handed. -/
structure RouteTable (H : Type*) where
  entries : List (Bytes × H)
  nodup : (entries.map Prod.fst).Nodup

namespace RouteTable

variable {H : Type*}

def empty : RouteTable H := ⟨[], List.nodup_nil⟩

/-- What a request for the path is dispatched to. -/
def find (t : RouteTable H) (path : Bytes) : Option H :=
  (t.entries.find? (·.1 = path)).map Prod.snd

theorem find_eq_some {t : RouteTable H} {path : Bytes} {h : H} :
    t.find path = some h ↔ (path, h) ∈ t.entries := by
  obtain ⟨l, hl⟩ := t
  simp only [find]
  induction l with
  | nil => simp
  | cons e l ih =>
    simp only [List.map_cons, List.nodup_cons, List.mem_map, not_exists, not_and] at hl
    by_cases he : e.1 = path
    · rw [List.find?_cons_of_pos (by simpa using he), Option.map_some, Option.some.injEq,
        List.mem_cons]
      refine ⟨fun h' => .inl (Prod.ext he.symm h'.symm), ?_⟩
      rintro (h' | h')
      · rw [← h']
      · exact absurd he.symm (hl.1 _ h')
    · rw [List.find?_cons_of_neg (by simpa using he), ih hl.2, List.mem_cons]
      refine ⟨.inr, ?_⟩
      rintro (h' | h')
      · exact absurd (by rw [← h']) he
      · exact h'

theorem find_eq_none {t : RouteTable H} {path : Bytes} :
    t.find path = none ↔ path ∉ t.entries.map Prod.fst := by
  simp only [find, Option.map_eq_none_iff, List.find?_eq_none, decide_eq_true_eq, List.mem_map,
    not_exists, not_and]

/-- `evhttp_set_cb`, which refuses a path that has a callback. -/
def set (t : RouteTable H) (path : Bytes) (h : H) : RouteTable H :=
  if hp : path ∈ t.entries.map Prod.fst then t
  else
    { entries := t.entries ++ [(path, h)]
      nodup := by
        rw [List.map_append, List.nodup_append]
        refine ⟨t.nodup, by simp, ?_⟩
        rintro a ha b hb rfl
        obtain rfl : a = path := by simpa using hb
        exact hp ha }

/-- `evhttp_del_cb`. -/
def del (t : RouteTable H) (path : Bytes) : RouteTable H :=
  { entries := t.entries.filter (·.1 ≠ path)
    nodup := t.nodup.sublist (List.filter_sublist.map _) }

theorem find_del (t : RouteTable H) (path q : Bytes) :
    (t.del path).find q = if q = path then none else t.find q := by
  split_ifs with hq
  · subst hq
    rw [find_eq_none]
    simp [del]
  · apply Option.ext
    intro h
    rw [find_eq_some, find_eq_some]
    simp [del, hq]

theorem set_of_some {t : RouteTable H} {path : Bytes} {h h' : H} (hp : t.find path = some h') :
    t.set path h = t := by
  have : path ∈ t.entries.map Prod.fst := List.mem_map.2 ⟨_, find_eq_some.1 hp, rfl⟩
  simp [set, this]

theorem find_set_of_none {t : RouteTable H} {path : Bytes} (h : H) (hp : t.find path = none)
    (q : Bytes) : (t.set path h).find q = if q = path then some h else t.find q := by
  have hp' := find_eq_none.1 hp
  have hset : (t.set path h).entries = t.entries ++ [(path, h)] := by
    rw [set, dif_neg hp']
  apply Option.ext
  intro h'
  split_ifs with hq
  · subst hq
    rw [find_eq_some, hset, List.mem_append, List.mem_singleton, Prod.mk.injEq, eq_self,
      true_and, Option.some.injEq, eq_comm]
    refine ⟨?_, .inr⟩
    rintro (h'' | h'')
    · exact absurd (List.mem_map.2 ⟨_, h'', rfl⟩) hp'
    · exact h''
  · rw [find_eq_some, find_eq_some, hset]
    simp [hq]

theorem find_set_of_ne {t : RouteTable H} {path q : Bytes} (h : H) (hq : q ≠ path) :
    (t.set path h).find q = t.find q := by
  rcases hp : t.find path with _ | h'
  · rw [find_set_of_none h hp, if_neg hq]
  · rw [set_of_some hp]

/-- A route found after `evhttp_set_cb` is the new one or was there. -/
theorem find_set_cases {t : RouteTable H} {path q : Bytes} {h h' : H}
    (hf : (t.set path h).find q = some h') : t.find q = some h' ∨ q = path ∧ h' = h := by
  rcases hp : t.find path with _ | h''
  · rw [find_set_of_none h hp] at hf
    split_ifs at hf with hq
    · exact .inr ⟨hq, (Option.some.inj hf).symm⟩
    · exact .inl hf
  · rw [set_of_some hp] at hf
    exact .inl hf

/-- Paths taken down one after another. -/
def delAll (t : RouteTable H) (paths : List Bytes) : RouteTable H := paths.foldl del t

/-- Paths put up one after another. -/
def setAll (t : RouteTable H) (l : List (Bytes × H)) : RouteTable H :=
  l.foldl (fun t e => t.set e.1 e.2) t

theorem delAll_append (t : RouteTable H) (l l' : List Bytes) :
    t.delAll (l ++ l') = (t.delAll l).delAll l' := List.foldl_append

theorem setAll_append (t : RouteTable H) (l l' : List (Bytes × H)) :
    t.setAll (l ++ l') = (t.setAll l).setAll l' := List.foldl_append

theorem find_delAll (q : Bytes) : ∀ (paths : List Bytes) (t : RouteTable H),
    (t.delAll paths).find q = if q ∈ paths then none else t.find q
  | [], _ => rfl
  | path :: paths, t => by
    show ((t.del path).delAll paths).find q = _
    rw [find_delAll q paths, find_del]
    by_cases hq : q = path <;> by_cases hp : q ∈ paths <;> simp [hq, hp]

theorem find_set (t : RouteTable H) (path q : Bytes) (h : H) :
    (t.set path h).find q = (t.find q).or (if path = q then some h else none) := by
  rcases hp : t.find path with _ | h'
  · rw [find_set_of_none h hp]
    by_cases hq : q = path
    · subst hq
      simp [hp]
    · simp [hq, Ne.symm hq]
  · rw [set_of_some hp]
    by_cases hq : path = q
    · subst hq
      simp [hp]
    · simp [hq]

/-- What is found is what was there, or else the first of the new ones. -/
theorem find_setAll (q : Bytes) : ∀ (l : List (Bytes × H)) (t : RouteTable H),
    (t.setAll l).find q = (t.find q).or ((l.find? (·.1 = q)).map Prod.snd)
  | [], t => by simp [setAll]
  | e :: l, t => by
    show ((t.set e.1 e.2).setAll l).find q = _
    rw [find_setAll q l, find_set, Option.or_assoc]
    by_cases he : e.1 = q <;> simp [he]

theorem find_setAll_cases {q : Bytes} {h : H} : ∀ {l : List (Bytes × H)} {t : RouteTable H},
    (t.setAll l).find q = some h → t.find q = some h ∨ (q, h) ∈ l
  | [], _, hf => .inl hf
  | e :: l, t, hf => by
    rcases find_setAll_cases (t := t.set e.1 e.2) hf with hf | hf
    · rcases find_set_cases hf with hf | ⟨rfl, rfl⟩
      · exact .inl hf
      · exact .inr List.mem_cons_self
    · exact .inr (List.mem_cons_of_mem _ hf)

theorem find_set_self (t : RouteTable H) (path : Bytes) (h : H) :
    ∃ h', (t.set path h).find path = some h' := by
  rcases hp : t.find path with _ | h'
  · exact ⟨h, by rw [find_set_of_none h hp, if_pos rfl]⟩
  · exact ⟨h', by rw [set_of_some hp, hp]⟩

theorem find_set_of_some {t : RouteTable H} {path q : Bytes} {h h' : H}
    (hq : t.find q = some h') : (t.set path h).find q = some h' := by
  rcases hp : t.find path with _ | h''
  · rw [find_set_of_none h hp, if_neg, hq]
    rintro rfl
    rw [hp] at hq
    cases hq
  · rw [set_of_some hp, hq]

/-- `evhttp_set_cb` leaves the routes that are there alone. -/
theorem find_setAll_of_some {q : Bytes} {h : H} : ∀ (l : List (Bytes × H)) {t : RouteTable H},
    t.find q = some h → (t.setAll l).find q = some h
  | [], _, hq => hq
  | _ :: l, _, hq => find_setAll_of_some l (find_set_of_some hq)

theorem find_setAll_self {q : Bytes} : ∀ {l : List (Bytes × H)} (t : RouteTable H),
    q ∈ l.map Prod.fst → ∃ h, (t.setAll l).find q = some h
  | e :: l, t, hq => by
    rcases List.mem_cons.1 hq with rfl | hq
    · obtain ⟨h, hh⟩ := find_set_self t e.1 e.2
      exact ⟨h, find_setAll_of_some l hh⟩
    · exact find_setAll_self (t.set e.1 e.2) hq

end RouteTable

/-- `enum evhttp_cmd_type`. -/
inductive EvhttpCmd where
  | get | post | head | put | delete | options | trace | connect | patch
  deriving DecidableEq, Repr

/-- What is sent in answer to a request. -/
inductive Reply where
  | json (j : Json)
  | data (body : Bytes)
  | accepted (location : Bytes)
  | error (code : ℕ) (reason : Bytes)

end AuraHttpd
