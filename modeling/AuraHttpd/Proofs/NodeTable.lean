import AuraHttpd.Proofs.NodeSteps
import AuraHttpd.Proofs.CallLifetime
import Mathlib.Data.List.Forall2

/-!
# A node follows its export table

The paths of the old table come down before those of the new one go up, so a name the tables share
is never refused, and what is registered below `/call/` and `/acall/` is always the current table's
(`call_routes_follow`).  The listing is released with every notification but only replaced with a
new table, so it is good exactly in the runs that never lose a table they had
(`listing_valid_iff`).
-/

namespace AuraHttpd

open CString StepSystem

variable {L : NodeLibs} {mpoint : Mpoint}

section Paths

variable (mpoint)

/-- The full path that issues a call. -/
def callRoute (isAsync : Bool) (name : Bytes) : Bytes :=
  mpoint.mountpoint ++ callPath isAsync name

def callHandler (isAsync : Bool) : Handler := ⟨issueCallCb isAsync, .mpoint mpoint.id⟩

variable {mpoint}

theorem callRoute_inj {a b : Bool} {m n : Bytes} :
    callRoute mpoint a m = callRoute mpoint b n ↔ a = b ∧ m = n := by
  unfold callRoute callPath
  rw [List.append_cancel_left_eq]
  cases a <;> cases b <;> simp [callBase, lit]

theorem find_callpathDelete (routes : Routes) (o : AuraObject) (a : Bool) (name : Bytes) :
    (callpathDelete mpoint routes o).find (callRoute mpoint a name)
      = if name = o.name then none else routes.find (callRoute mpoint a name) := by
  have hpath : ∀ b, mpoint.mountpoint ++ callPath b o.name = callRoute mpoint b o.name :=
    fun _ => rfl
  simp only [callpathDelete, ahttpdDelPath, RouteTable.find_del, hpath, callRoute_inj]
  cases a <;> simp

theorem find_callpathAdd {routes : Routes} {o : AuraObject}
    (hfree : ∀ a, routes.find (callRoute mpoint a o.name) = none) (a : Bool) (name : Bytes) :
    (callpathAdd mpoint routes o).find (callRoute mpoint a name)
      = if name = o.name then some (callHandler mpoint a)
        else routes.find (callRoute mpoint a name) := by
  have hpath : ∀ b, mpoint.mountpoint ++ callPath b o.name = callRoute mpoint b o.name :=
    fun _ => rfl
  unfold callpathAdd ahttpdAddPath
  simp only [hpath]
  rw [RouteTable.find_set_of_none, RouteTable.find_set_of_none _ (hfree false)]
  · simp only [callRoute_inj]
    cases a <;> by_cases hn : name = o.name <;> simp [hn, callHandler]
  · rw [RouteTable.find_set_of_none _ (hfree false), if_neg (by simp [callRoute_inj])]
    exact hfree true

theorem find_foldl_delete (a : Bool) (name : Bytes) : ∀ (os : List AuraObject) (routes : Routes),
    (os.foldl (callpathDelete mpoint) routes).find (callRoute mpoint a name)
      = if name ∈ os.map AuraObject.name then none else routes.find (callRoute mpoint a name)
  | [], routes => by simp
  | o :: os, routes => by
    rw [List.foldl_cons, find_foldl_delete a name os, find_callpathDelete]
    by_cases h : name = o.name <;> simp [h]

theorem find_foldl_add (a : Bool) (name : Bytes) : ∀ (os : List AuraObject) (routes : Routes),
    (os.map AuraObject.name).Nodup →
    (∀ n ∈ os.map AuraObject.name, ∀ b, routes.find (callRoute mpoint b n) = none) →
    (os.foldl (callpathAdd mpoint) routes).find (callRoute mpoint a name)
      = if name ∈ os.map AuraObject.name then some (callHandler mpoint a)
        else routes.find (callRoute mpoint a name)
  | [], routes, _, _ => by simp
  | o :: os, routes, hnodup, hfree => by
    rw [List.map_cons, List.nodup_cons] at hnodup
    have hadd := fun b n => find_callpathAdd (hfree o.name (by simp)) b n
    rw [List.foldl_cons, find_foldl_add a name os _ hnodup.2, hadd]
    · by_cases h : name = o.name <;> simp [h]
    · intro n hn b
      rw [hadd, if_neg]
      · exact hfree n (by simp [hn]) b
      · rintro rfl
        exact hnodup.1 hn

/-- The names of the current table. -/
def NodeTable.names (t : NodeTable) : List Bytes := (tableObjects t.tbl).map AuraObject.name

/-- Below `/call/` and `/acall/` the registered paths are those of the current table. -/
structure CallRoutes (mpoint : Mpoint) (t : NodeTable) : Prop where
  listed : ∀ a name, name ∈ t.names →
    t.routes.find (callRoute mpoint a name) = some (callHandler mpoint a)
  others : ∀ a name, name ∉ t.names → t.routes.find (callRoute mpoint a name) = none

theorem callRoutes_iff {t : NodeTable} : CallRoutes mpoint t ↔ ∀ a name,
    t.routes.find (callRoute mpoint a name)
      = if name ∈ t.names then some (callHandler mpoint a) else none := by
  constructor
  · intro h a name
    split_ifs with hn
    · exact h.listed a name hn
    · exact h.others a name hn
  · intro h
    exact ⟨fun a name hn => (h a name).trans (if_pos hn),
      fun a name hn => (h a name).trans (if_neg hn)⟩

theorem tableObjects_nodup (tbl : Option ExportTable) :
    ((tableObjects tbl).map AuraObject.name).Nodup := by
  rcases tbl with _ | tbl
  · simp [tableObjects]
  · exact tbl.nodup

theorem CallRoutes.changed {t t' : NodeTable} {new : Option ExportTable}
    (h : CallRoutes mpoint t) (hcb : etblChangedCb L mpoint t t.tbl new = some t') :
    CallRoutes mpoint { t' with tbl := new } := by
  obtain ⟨-, -, hroutes, -⟩ := etblChangedCb_cases hcb
  have hdown : ∀ a name, ((tableObjects t.tbl).foldl (callpathDelete mpoint) t.routes).find
      (callRoute mpoint a name) = none := by
    intro a name
    rw [find_foldl_delete]
    split_ifs with hn
    · rfl
    · exact h.others a name hn
  rw [callRoutes_iff]
  intro a name
  simp only [hroutes]
  rw [find_foldl_add a name _ _ (tableObjects_nodup new) fun n _ b => hdown b n, hdown]
  rfl

theorem exports_routes (t : NodeTable) :
    (exports t).2.routes = t.routes ∧ (exports t).2.tbl = t.tbl := by
  unfold exports
  split
  · exact ⟨rfl, rfl⟩
  · split_ifs <;> exact ⟨rfl, rfl⟩

theorem CallRoutes.step {s s' : NodeFs} {e : NodeEvent} (h : CallRoutes mpoint s.table)
    (ht : NodeTrans L mpoint s e s') : CallRoutes mpoint s'.table := by
  cases ht with
  | etblChanged hm hcb => exact h.changed hcb
  | exports hm hc =>
    obtain ⟨hroutes, htbl⟩ := exports_routes s.table
    rw [callRoutes_iff] at h ⊢
    intro a name
    rw [hroutes, NodeTable.names, htbl]
    exact h a name
  | _ => exact h

theorem callRoutes_mount {routes : Routes}
    (hfree : ∀ a name, routes.find (callRoute mpoint a name) = none) :
    CallRoutes mpoint (nodeMount mpoint routes).table := by
  rw [callRoutes_iff]
  intro a name
  have hne : ∀ path, (∀ b n, callPath b n ≠ path) →
      callRoute mpoint a name ≠ mpoint.mountpoint ++ path := fun path hp he =>
    hp a name (List.append_cancel_left he)
  simp only [nodeMount, ahttpdAddPath]
  rw [RouteTable.find_set_of_ne _ (hne _ ?_), RouteTable.find_set_of_ne _ (hne _ ?_),
    RouteTable.find_set_of_ne _ (hne _ ?_), hfree]
  · simp [NodeTable.names, tableObjects]
  all_goals
    intro b n
    cases b <;> simp [callPath, callBase, lit]

/-- After any chain of notifications, among whatever other events, the paths registered below
`/call/` and `/acall/` of the mountpoint are those of the current table, each with the callback of
its kind. -/
theorem call_routes_follow (L : NodeLibs) (mpoint : Mpoint) (routes : Routes)
    (es : List NodeEvent) (s : NodeFs)
    (hfree : ∀ name, routes.find (mpoint.mountpoint ++ (lit "/call/" ++ name)) = none
      ∧ routes.find (mpoint.mountpoint ++ (lit "/acall/" ++ name)) = none)
    (h : run (nodeStep L mpoint) (nodeMount mpoint routes) es = some s) (name : Bytes) :
    s.table.routes.find (mpoint.mountpoint ++ (lit "/call/" ++ name))
        = (if name ∈ s.table.names then some ⟨.issueCallSyncCb, .mpoint mpoint.id⟩ else none)
      ∧ s.table.routes.find (mpoint.mountpoint ++ (lit "/acall/" ++ name))
        = (if name ∈ s.table.names then some ⟨.issueCallAsyncCb, .mpoint mpoint.id⟩ else none) := by
  have hinv : CallRoutes mpoint s.table := by
    refine run_inv (I := fun s => CallRoutes mpoint s.table)
      (fun s e s' hI _ hs => hI.step (nodeTrans_of_step hs)) es (callRoutes_mount ?_)
      (along_true es _) h
    intro a name
    cases a
    · exact (hfree name).1
    · exact (hfree name).2
  rw [callRoutes_iff] at hinv
  exact ⟨hinv false name, hinv true name⟩

/-- The libraries as far as a node without arguments and results needs them. -/
def NodeLibs.plain : NodeLibs where
  codes := .digits
  wire := .littleEndian
  objectIsEvent _ := false
  objectIsMethod _ := true
  uridecode := some
  jsonParse s := if s = lit "[]" then some (.array []) else none

def onlineMpoint : Mpoint := ⟨0, lit "/online"⟩

def pingTable : ExportTable := ⟨[pingObject], by simp⟩

/-- The table is replaced, read and replaced again. -/
def replacedRun : List NodeEvent :=
  [.call .accept, .etblChanged (some pingTable), .exports 0, .etblChanged (some pingTable),
    .exports 0]

theorem call_routes_follow_replacedRun :
    ∃ s, run (nodeStep .plain onlineMpoint) (nodeMount onlineMpoint .empty) replacedRun = some s
      ∧ s.table.routes.find (lit "/online" ++ (lit "/acall/" ++ lit "ping"))
        = some ⟨.issueCallAsyncCb, .mpoint 0⟩ := by
  refine ⟨_, rfl, ?_⟩
  exact (call_routes_follow .plain onlineMpoint .empty replacedRun _ (fun _ => ⟨rfl, rfl⟩) rfl
    (lit "ping")).2

end Paths

section Listing

/-- The listing, if there is one, has not been released and has one entry for each object of the
current table; none was released twice or served after its release. -/
def ListingValid (L : NodeLibs) (t : NodeTable) : Prop :=
  (∀ e, t.etable = some e → e ∉ t.released
      ∧ ∃ tbl entries, t.tbl = some tbl ∧ t.arrays[e]? = some entries
        ∧ List.Forall₂ (fun o j => objectToJson L o = some j) tbl.objects entries)
    ∧ t.released.Nodup ∧ t.stale = []

/-- No notification takes a table away without a new one. -/
def TableKept (s : NodeFs) : NodeEvent → Prop
  | .etblChanged new => s.table.tbl ≠ none → new ≠ none
  | _ => True

theorem forall₂_of_mapM {α β : Type} {f : α → Option β} : ∀ {l : List α} {m : List β},
    l.mapM f = some m → List.Forall₂ (fun a b => f a = some b) l m
  | [], m, h => by
    obtain rfl : [] = m := by simpa using h
    exact .nil
  | a :: l, m, h => by
    simp only [List.mapM_cons, Option.bind_eq_bind, Option.bind_eq_some_iff] at h
    obtain ⟨b, hb, bs, hbs, h⟩ := h
    cases h
    exact .cons hb (forall₂_of_mapM hbs)

/-- What is released was made, and a node that has a table has a listing. -/
structure ListingKept (t : NodeTable) : Prop where
  released_lt : ∀ e ∈ t.released, e < t.arrays.length
  etable_lt : ∀ e, t.etable = some e → e < t.arrays.length
  some_of_tbl : t.tbl ≠ none → t.etable ≠ none

theorem ListingKept.changed {t t' : NodeTable} {new : Option ExportTable} (h : ListingKept t)
    (hcb : etblChangedCb L mpoint t t.tbl new = some t') :
    ListingKept { t' with tbl := new } := by
  obtain ⟨hrel, -, -, hnew⟩ := etblChangedCb_cases hcb
  have hlt : ∀ e ∈ t'.released, e < t.arrays.length := by
    intro e he
    rw [hrel, List.mem_append, Option.mem_toList] at he
    rcases he with he | he
    · exact h.released_lt e he
    · exact h.etable_lt e he
  rcases hnew with ⟨rfl, het, harr⟩ | ⟨tbl, entries, rfl, -, het, harr⟩
  · refine ⟨fun e he => ?_, fun e he => ?_, fun hn => absurd rfl hn⟩
    · rw [harr]
      exact hlt e he
    · rw [harr]
      exact h.etable_lt e (by simpa [het] using he)
  · have hlen : t'.arrays.length = t.arrays.length + 1 := by simp [harr]
    refine ⟨fun e he => ?_, fun e he => ?_, fun _ => by simp [het]⟩
    · have := hlt e he
      show e < t'.arrays.length
      omega
    · obtain rfl : t.arrays.length = e := by simpa [het] using he
      show t.arrays.length < t'.arrays.length
      omega

theorem exports_listing (t : NodeTable) : (exports t).2 = t ∨ (∃ e, t.etable = some e
    ∧ e ∈ t.released ∧ (exports t).2 = { t with stale := t.stale ++ [e] }) := by
  unfold exports
  split
  · exact .inl rfl
  · rename_i e he
    split_ifs with hr
    · exact .inr ⟨e, he, hr, rfl⟩
    · exact .inl rfl

theorem ListingKept.step {s s' : NodeFs} {e : NodeEvent} (h : ListingKept s.table)
    (ht : NodeTrans L mpoint s e s') : ListingKept s'.table := by
  cases ht with
  | etblChanged hm hcb => exact h.changed hcb
  | exports hm hc =>
    rcases exports_listing s.table with he | ⟨e, -, -, he⟩
    · rw [he]
      exact h
    · rw [he]
      exact { h with }
  | _ => exact h

theorem ListingValid.step {s s' : NodeFs} {e : NodeEvent} (h : ListingValid L s.table)
    (hk : ListingKept s.table) (hC : TableKept s e) (ht : NodeTrans L mpoint s e s') :
    ListingValid L s'.table := by
  cases ht with
  | @etblChanged new t' hm hcb =>
    obtain ⟨hlive, hnodup, hstale⟩ := h
    obtain ⟨hrel, hstale', -, hnew⟩ := etblChangedCb_cases hcb
    have hrel' : t'.released.Nodup := by
      rw [hrel, List.nodup_append]
      refine ⟨hnodup, by rcases s.table.etable with _ | e <;> simp, ?_⟩
      rintro a ha b hb rfl
      exact (hlive a (Option.mem_toList.1 hb)).1 ha
    refine ⟨fun e he => ?_, hrel', hstale'.trans hstale⟩
    rcases hnew with ⟨rfl, het, -⟩ | ⟨tbl, entries, rfl, hentries, het, harr⟩
    · obtain ⟨-, tbl, -, htbl, -⟩ := hlive e (by simpa [het] using he)
      exact absurd rfl (hC (by simp [htbl]))
    · obtain rfl : s.table.arrays.length = e := by simpa [het] using he
      refine ⟨fun hm => ?_, tbl, entries, rfl, by simp [harr], forall₂_of_mapM hentries⟩
      simp only [hrel, List.mem_append, Option.mem_toList] at hm
      rcases hm with hm | hm
      · exact Nat.lt_irrefl _ (hk.released_lt _ hm)
      · exact Nat.lt_irrefl _ (hk.etable_lt _ hm)
  | exports hm hc =>
    rcases exports_listing s.table with he | ⟨e, het, hr, -⟩
    · rw [he]
      exact h
    · exact absurd hr (h.1 e het).1
  | _ => exact h

/-- Without its table the node keeps the listing that has just been released. -/
theorem TableKept.of_valid {s s' : NodeFs} {e : NodeEvent} (hk : ListingKept s.table)
    (ht : NodeTrans L mpoint s e s') (h : ListingValid L s'.table) : TableKept s e := by
  cases ht with
  | @etblChanged new t' hm hcb =>
    rintro htbl rfl
    obtain ⟨e, he⟩ := Option.ne_none_iff_exists'.1 (hk.some_of_tbl htbl)
    obtain ⟨hrel, -, -, hnew⟩ := etblChangedCb_cases hcb
    rcases hnew with ⟨-, het, -⟩ | ⟨tbl, entries, hnone, -⟩
    · exact (h.1 e (het.trans he)).1 (by simp [hrel, he])
    · cases hnone
  | _ => trivial

theorem listingKept_of_run {routes : Routes} {es : List NodeEvent} {s : NodeFs}
    (h : run (nodeStep L mpoint) (nodeMount mpoint routes) es = some s) : ListingKept s.table :=
  run_inv (I := fun s => ListingKept s.table) (fun _ _ _ hI _ hs => hI.step (nodeTrans_of_step hs))
    es (by constructor <;> simp [nodeMount]) (along_true es _) h

/-- In a run the listing is valid at every point exactly when no notification takes the table
away. -/
theorem listing_valid_iff (L : NodeLibs) (mpoint : Mpoint) (routes : Routes)
    (es : List NodeEvent) (s : NodeFs)
    (h : run (nodeStep L mpoint) (nodeMount mpoint routes) es = some s) :
    (∀ es₁ s₁, es₁ <+: es → run (nodeStep L mpoint) (nodeMount mpoint routes) es₁ = some s₁ →
        ListingValid L s₁.table)
      ↔ Along (nodeStep L mpoint) TableKept (nodeMount mpoint routes) es := by
  constructor
  · intro hv
    refine along_of_prefix fun es₁ e t hpre ht => ?_
    obtain ⟨s₁, hs₁⟩ := run_of_prefix h hpre
    obtain ⟨t', ht', hstep⟩ := run_concat hs₁
    obtain rfl := Option.some.inj (ht.symm.trans ht')
    exact .of_valid (listingKept_of_run ht) (nodeTrans_of_step hstep) (hv _ s₁ hpre hs₁)
  · intro hC es₁ s₁ hpre hs₁
    have hC₁ := hC.of_prefix hpre
    have hinv : ListingKept s₁.table ∧ ListingValid L s₁.table :=
      run_inv (I := fun s => ListingKept s.table ∧ ListingValid L s.table) (fun s e s' hI hCe hs =>
        have ht := nodeTrans_of_step hs
        ⟨hI.1.step ht, hI.2.step hI.1 hCe ht⟩) es₁
        ⟨by constructor <;> simp [nodeMount], by simp [ListingValid, nodeMount]⟩ hC₁ hs₁
    exact hinv.2

theorem listing_valid_iff_replacedRun :
    ∃ s, run (nodeStep .plain onlineMpoint) (nodeMount onlineMpoint .empty) replacedRun = some s
      ∧ ListingValid .plain s.table := by
  refine ⟨_, rfl, ?_⟩
  refine (listing_valid_iff .plain onlineMpoint .empty replacedRun _ rfl).2 ?_ replacedRun _
    (List.prefix_refl _) rfl
  refine along_of_prefix fun es₁ e t hpre ht => ?_
  rcases e with new | _ | _ | _ | _ | _
  case etblChanged =>
    intro _ hnew
    have := hpre.subset (List.mem_append_right es₁ (List.mem_singleton.2 rfl))
    simp [replacedRun, hnew] at this
  all_goals trivial

/-- The table goes away and the listing is read, then there is a table again. -/
def lostTableRun : List NodeEvent :=
  [.call .accept, .etblChanged (some pingTable), .etblChanged none, .exports 0,
    .etblChanged (some pingTable)]

theorem lostTableRun_serves_released :
    ∃ s, run (nodeStep .plain onlineMpoint) (nodeMount onlineMpoint .empty) lostTableRun = some s
      ∧ s.table.released = [0, 0] ∧ s.table.stale = [0] ∧ ¬ ListingValid .plain s.table := by
  refine ⟨_, rfl, rfl, rfl, fun h => ?_⟩
  cases h.2.2

end Listing

end AuraHttpd
