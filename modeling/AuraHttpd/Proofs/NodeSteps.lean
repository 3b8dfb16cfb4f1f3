import AuraHttpd.FsNode

/-!
# What the events of a mounted node do

`NodeTrans` lists what each event can do, and `nodeTrans_of_step` says that there is nothing else.
A notification of aura's releases the listing made last, if there is one, and makes one of the new
table, if there is one (`etblChangedCb_cases`).
-/

namespace AuraHttpd

open CString StepSystem

variable (L : NodeLibs) (mpoint : Mpoint)

/-- What an event does to a state. -/
inductive NodeTrans (s : NodeFs) : NodeEvent → NodeFs → Prop where
  | etblChanged {new : Option ExportTable} {table : NodeTable} (hm : s.calls.mounted = true)
      (h : etblChangedCb L mpoint s.table s.table.tbl new = some table) :
    NodeTrans s (.etblChanged new) { s with table := { table with tbl := new } }
  | exports {c : Conn} (hm : s.calls.mounted = true) (hc : c ∈ s.calls.conns) :
    NodeTrans s (.exports c)
      { s with
        calls := s.calls.nextRequest
        table := (exports s.table).2
        replies := s.replies ++ [(s.calls.request c, (exports s.table).1)] }
  | arrive {o : AuraObject} {buf : AuraBuffer} (h : s.queue.length < syncEvents) :
    NodeTrans s (.arrive o buf) { s with queue := s.queue ++ [(o, buf)] }
  | events {c : Conn} {list : List Json} {queue : List (AuraObject × AuraBuffer)}
      (hm : s.calls.mounted = true) (hc : c ∈ s.calls.conns)
      (h : eventsLoop L 0 [] s.queue = some (list, queue)) :
    NodeTrans s (.events c)
      { s with
        calls := s.calls.nextRequest
        queue := queue
        replies := s.replies ++ [(s.calls.request c, .array list)] }
  | issueCall {c : Conn} {request : CallRequest} {path name : Bytes} {isAsync started : Bool}
      {calls : Nodefs} (hm : s.calls.mounted = true) (hc : c ∈ s.calls.conns)
      (h : issueCall L mpoint s.calls.nextRequest s.table.tbl (s.calls.request c) request name
        isAsync started = some calls) :
    NodeTrans s (.issueCall c request path isAsync started) { s with calls := calls }
  | call {e : CallEvent} {calls : Nodefs}
      (h : callStep L.codes L.wire mpoint.mountpoint s.calls e = some calls)
      (hne : ∀ c o args isAsync started, e ≠ .create c o args isAsync started) :
    NodeTrans s (.call e) { s with calls := calls }

variable {L mpoint}

theorem nodeTrans_of_step {s s' : NodeFs} {e : NodeEvent} (h : nodeStep L mpoint s e = some s') :
    NodeTrans L mpoint s e s' := by
  unfold nodeStep at h
  split at h
  · split_ifs at h with hm
    simp only [Option.bind_eq_bind, Option.bind_eq_some_iff] at h
    obtain ⟨table, ht, h⟩ := h
    cases h
    exact .etblChanged hm ht
  · split_ifs at h with hm
    cases h
    exact .exports hm.1 hm.2
  · split_ifs at h with hlt
    cases h
    exact .arrive hlt
  · split_ifs at h with hm
    simp only [Option.bind_eq_bind, Option.bind_eq_some_iff] at h
    obtain ⟨⟨list, queue⟩, hl, h⟩ := h
    cases h
    exact .events hm.1 hm.2 hl
  · split_ifs at h with hm
    simp only [Option.bind_eq_bind, Option.bind_eq_some_iff] at h
    obtain ⟨name, -, calls, hcalls, h⟩ := h
    cases h
    exact .issueCall hm.1 hm.2 hcalls
  · cases h
  · rename_i hne
    simp only [Option.bind_eq_bind, Option.bind_eq_some_iff] at h
    obtain ⟨calls, hcalls, h⟩ := h
    cases h
    exact .call hcalls fun c o args isAsync started he => hne c o args isAsync started he

/-- The objects of a table; none where there is no table. -/
def tableObjects (tbl : Option ExportTable) : List AuraObject := (tbl.map (·.objects)).getD []

/-- A notification releases the listing there is, takes down the paths of the old table, and lists
and puts up those of the new one. -/
theorem etblChangedCb_cases {t t' : NodeTable} {old new : Option ExportTable}
    (h : etblChangedCb L mpoint t old new = some t') :
    t'.released = t.released ++ t.etable.toList ∧ t'.stale = t.stale
      ∧ t'.routes = (tableObjects new).foldl (callpathAdd mpoint)
        ((tableObjects old).foldl (callpathDelete mpoint) t.routes)
      ∧ (new = none ∧ t'.etable = t.etable ∧ t'.arrays = t.arrays
        ∨ ∃ tbl entries, new = some tbl ∧ tbl.objects.mapM (objectToJson L) = some entries
          ∧ t'.etable = some t.arrays.length ∧ t'.arrays = t.arrays ++ [entries]) := by
  have hdel : etableDeleteCallpaths mpoint t old = { t with
      released := t.released ++ t.etable.toList
      routes := (tableObjects old).foldl (callpathDelete mpoint) t.routes } := by
    rcases t with ⟨tbl, _ | e, arrays, released, stale, routes⟩ <;> rcases old with _ | old <;>
      simp [etableDeleteCallpaths, tableObjects]
  unfold etblChangedCb etableCreateCallpaths at h
  rw [hdel] at h
  rcases new with _ | tbl
  · cases h
    exact ⟨rfl, rfl, rfl, .inl ⟨rfl, rfl, rfl⟩⟩
  · simp only [Option.bind_eq_bind, Option.bind_eq_some_iff] at h
    obtain ⟨entries, hentries, h⟩ := h
    cases h
    exact ⟨rfl, rfl, rfl, .inr ⟨tbl, entries, rfl, hentries, rfl, rfl⟩⟩

end AuraHttpd
