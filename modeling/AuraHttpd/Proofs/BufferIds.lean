import AuraHttpd.Lib.IdStore
import AuraHttpd.Proofs.BufferStore

/-!
# The store of buffers hands out identifiers

While fewer than `2^63` parts have come in, `current_id` does not wrap, and the buffers stand for
a store that hands out increasing identifiers: a part that is stored is put into it, a part that
is refused behind the size check skips an identifier, and a drop request drops one
(`Represents`).  Every route that should be there then is, so that routes and store agree
(`routes_agree`).  `StoreOf` follows such a store from any state on, with what was asked to be
dropped since.
-/

namespace AuraHttpd

open CString Script StepSystem

/-- What is known of the record of a stored part. -/
structure RecordOf (T : AuraTransport) (b : AvailableBuffer) (i : ℤ) (part : Part) : Prop where
  id : b.id = i
  info : ∃ fs, b.info = some (.object fs)
    ∧ (Json.object fs).get (lit "id") = .int (Int64.ofInt i)
  buf : ∃ aura made, b.buf = some aura ∧ T.fromEviovec part.vec part.length = .ok made
    ∧ aura.data = made.data ∧ aura.extra = made.extra

/-- The buffers are those of a store that hands out identifiers. -/
structure Represents (mountpoint : Bytes) (T : AuraTransport) (d : BufmodData)
    (s : IdStore (RecordId × Part)) : Prop where
  next : d.currentId = s.next
  bound : s.next ≤ d.parts
  buffers : d.buffers = s.entries.map (·.2.1)
  assigned : d.assigned = s.assigned.map fun e => ((e.1 : ℤ), e.2.2)
  record : ∀ e ∈ s.entries, ∃ b, d.records e.2.1 = some b ∧ RecordOf T b e.1 e.2.2
  routes : ∀ p h, LeadsTo mountpoint d.buffers d.records p h → d.routes.find p = some h

variable {mountpoint : Bytes} {T : AuraTransport} {d d' : BufmodData}
  {s : IdStore (RecordId × Part)}

theorem wrapS_succ_long {n : ℕ} {k : ℕ} (hk : k ≤ n) (hn : n + 1 < 2 ^ 63) :
    wrapS 64 ((k : ℤ) + 1) = ((k + 1 : ℕ) : ℤ) :=
  wrapS_eq (w := 63) (by omega) (by omega)

theorem downloadPath_inj {i j : ℕ} (hi : i < 2 ^ 63) (hj : j < 2 ^ 63)
    (h : downloadPath mountpoint i = downloadPath mountpoint j) : i = j := by
  have := fmtLu_inj ⟨by omega, by omega⟩ ⟨by omega, by omega⟩
    (List.append_cancel_left (List.append_cancel_left h))
  exact_mod_cast this

theorem dropPath_inj {i j : ℕ} (hi : i < 2 ^ 63) (hj : j < 2 ^ 63)
    (h : dropPath mountpoint i = dropPath mountpoint j) : i = j := by
  have := fmtLu_inj ⟨by omega, by omega⟩ ⟨by omega, by omega⟩
    (List.append_cancel_left (List.append_cancel_left h))
  exact_mod_cast this

/-- Paths that differ behind the mountpoint's are different. -/
theorem path_ne {p q : Bytes} (h : p.take 3 ≠ q.take 3) : mountpoint ++ p ≠ mountpoint ++ q :=
  fun he => h (congrArg (List.take 3) (List.append_cancel_left he))

theorem downloadPath_ne_dropPath (i j : ℤ) :
    downloadPath mountpoint i ≠ dropPath mountpoint j := path_ne (by simp [lit])

theorem LeadsTo.of_download {p : Bytes} {h : BufferRoute} {i : ℤ}
    (hl : LeadsTo mountpoint d.buffers d.records p h) (hp : p = downloadPath mountpoint i) :
    ∃ r b, h = .download r ∧ r ∈ d.buffers ∧ d.records r = some b
      ∧ p = downloadPath mountpoint b.id := by
  cases hl with
  | list => exact absurd hp (path_ne (by simp [lit]))
  | post => exact absurd hp (path_ne (by simp [lit]))
  | download hr hb => exact ⟨_, _, rfl, hr, hb, rfl⟩
  | drop hr hb => exact absurd hp.symm (downloadPath_ne_dropPath _ _)

theorem LeadsTo.of_drop {p : Bytes} {h : BufferRoute} {i : ℤ}
    (hl : LeadsTo mountpoint d.buffers d.records p h) (hp : p = dropPath mountpoint i) :
    ∃ r b, h = .drop r ∧ r ∈ d.buffers ∧ d.records r = some b ∧ p = dropPath mountpoint b.id := by
  cases hl with
  | list => exact absurd hp (path_ne (by simp [lit]))
  | post => exact absurd hp (path_ne (by simp [lit]))
  | download hr hb => exact absurd hp (downloadPath_ne_dropPath _ _)
  | drop hr hb => exact ⟨_, _, rfl, hr, hb, rfl⟩

/-- A stored record is that of one entry. -/
theorem Represents.entry (h : Represents mountpoint T d s) {r : RecordId} {b : AvailableBuffer}
    (hr : r ∈ d.buffers) (hb : d.records r = some b) :
    ∃ part, (b.id.toNat, r, part) ∈ s.entries ∧ RecordOf T b b.id.toNat part
      ∧ b.id = b.id.toNat := by
  rw [h.buffers] at hr
  obtain ⟨⟨i, r, part⟩, he, rfl⟩ := List.mem_map.1 hr
  obtain ⟨b', hb', hof⟩ := h.record _ he
  obtain rfl : b = b' := Option.some.inj (hb.symm.trans hb')
  obtain rfl : i = b.id.toNat := by
    have := hof.id
    simp only at this
    omega
  exact ⟨part, he, hof, hof.id⟩

theorem Represents.entry_lt (h : Represents mountpoint T d s) (hp : d.parts < 2 ^ 63)
    {e : ℕ × RecordId × Part} (he : e ∈ s.entries) : e.1 < 2 ^ 63 :=
  lt_of_lt_of_le (s.entries_below he) (h.bound.trans hp.le)

/-- No route is there yet for the next identifier. -/
theorem Represents.fresh (h : Represents mountpoint T d s) (hwf : StoreWf mountpoint d)
    (hp : d.parts < 2 ^ 63) : d.routes.find (downloadPath mountpoint d.currentId) = none
      ∧ d.routes.find (dropPath mountpoint d.currentId) = none := by
  have hn := h.bound
  rw [h.next]
  refine ⟨?_, ?_⟩
  · by_contra hne
    obtain ⟨k, hk⟩ := Option.ne_none_iff_exists'.1 hne
    obtain ⟨r, b, -, hr, hb, hpath⟩ := (hwf.routes _ _ hk).of_download rfl
    obtain ⟨part, he, -, hid⟩ := h.entry hr hb
    rw [hid] at hpath
    have := downloadPath_inj (by omega) (h.entry_lt hp he) hpath
    exact absurd (s.entries_below he) (by simp only; omega)
  · by_contra hne
    obtain ⟨k, hk⟩ := Option.ne_none_iff_exists'.1 hne
    obtain ⟨r, b, -, hr, hb, hpath⟩ := (hwf.routes _ _ hk).of_drop rfl
    obtain ⟨part, he, -, hid⟩ := h.entry hr hb
    rw [hid] at hpath
    have := dropPath_inj (by omega) (h.entry_lt hp he) hpath
    exact absurd (s.entries_below he) (by simp only; omega)

theorem Represents.same (h : Represents mountpoint T d s) (hs : SameStore d d')
    (hid : d'.currentId = d.currentId) (hp : d.parts ≤ d'.parts) :
    Represents mountpoint T d' s := by
  have hrec : ∀ r ∈ d.buffers, d.records r = d'.records r := fun r hr => (hs.records r hr).symm
  refine ⟨hid.trans h.next, h.bound.trans hp, hs.buffers.trans h.buffers,
    hs.assigned.trans h.assigned, fun e he => ?_, fun p k hk => ?_⟩
  · rw [hs.records _ (h.buffers ▸ List.mem_map_of_mem he)]
    exact h.record e he
  · rw [hs.routes]
    rw [hs.buffers] at hk
    exact h.routes p k (hk.mono fun r hr b hb => ⟨hr, b, (hrec r hr).trans hb, rfl⟩)

theorem Represents.skip (h : Represents mountpoint T d s) (hs : SameStore d d')
    (hid : d'.currentId = wrapS 64 (d.currentId + 1)) (hp : d'.parts = d.parts + 1)
    (hlt : d'.parts < 2 ^ 63) : Represents mountpoint T d' s.skip := by
  have hn := h.bound
  have h' : Represents mountpoint T { d' with currentId := d.currentId } s :=
    h.same ⟨hs.maxSize, hs.currentSize, hs.buffers, hs.routes, hs.assigned, hs.records⟩ rfl
      (hp ▸ Nat.le_succ _)
  refine ⟨?_, ?_, h'.buffers, h'.assigned, h'.record, h'.routes⟩
  · rw [hid, h.next]
    exact wrapS_succ_long hn (hp ▸ hlt)
  · rw [hp]
    exact Nat.succ_le_succ hn

theorem find_replace (k : Bytes) (j : Json) : ∀ {fs : List (Bytes × Json)},
    fs.any (·.1 = k) = true →
    (fs.map fun f => if f.1 = k then (k, j) else f).find? (·.1 = k) = some (k, j)
  | [], h => by simp at h
  | f :: fs, h => by
    by_cases hf : f.1 = k
    · simp [hf]
    · have h' : fs.any (·.1 = k) = true := by simpa [hf] using h
      rw [List.map_cons, if_neg hf, List.find?_cons_of_neg (by simpa using hf)]
      exact find_replace k j h'

theorem get_objectAdd (fs : List (Bytes × Json)) (k : Bytes) (j : Json) :
    ∃ fs', (Json.object fs).objectAdd k j = .object fs' ∧ (Json.object fs').get k = j := by
  simp only [Json.objectAdd]
  split_ifs with h
  · exact ⟨_, rfl, by rw [Json.get, find_replace k j h]; rfl⟩
  · refine ⟨_, rfl, ?_⟩
    have hnone : fs.find? (·.1 = k) = none := by
      rw [List.find?_eq_none]
      intro f hf hk
      exact h (List.any_eq_true.2 ⟨f, hf, hk⟩)
    rw [Json.get, List.find?_append, hnone]
    simp

/-- The routes behind a put: the two new ones, and those that were there. -/
theorem PutInto.find {r : RecordId} {b : AvailableBuffer} {aura : AuraBuffer} {part : Part}
    (hput : PutInto mountpoint d r b aura part d')
    (hdown : d.routes.find (downloadPath mountpoint d.currentId) = none)
    (hdrop : d.routes.find (dropPath mountpoint d.currentId) = none) (p : Bytes) :
    d'.routes.find p = if p = dropPath mountpoint d.currentId then some (.drop r)
      else if p = downloadPath mountpoint d.currentId then some (.download r)
      else d.routes.find p := by
  have hne : dropPath mountpoint d.currentId ≠ downloadPath mountpoint d.currentId :=
    (downloadPath_ne_dropPath _ _).symm
  have hdrop' : (d.routes.set (downloadPath mountpoint d.currentId) (.download r)).find
      (dropPath mountpoint d.currentId) = none := by
    rw [RouteTable.find_set_of_none _ hdown, if_neg hne, hdrop]
  rw [hput.routes, RouteTable.find_set_of_none _ hdrop', RouteTable.find_set_of_none _ hdown]

/-- The routes that were there stay. -/
theorem PutInto.find_of_some {r : RecordId} {b : AvailableBuffer} {aura : AuraBuffer} {part : Part}
    {q : Bytes} {l : BufferRoute} (hput : PutInto mountpoint d r b aura part d')
    (hdown : d.routes.find (downloadPath mountpoint d.currentId) = none)
    (hdrop : d.routes.find (dropPath mountpoint d.currentId) = none)
    (hq : d.routes.find q = some l) : d'.routes.find q = some l := by
  rw [hput.find hdown hdrop, if_neg, if_neg, hq]
  · rintro rfl
    rw [hdown] at hq
    cases hq
  · rintro rfl
    rw [hdrop] at hq
    cases hq

/-- The record of a part that enters the store. -/
theorem recordOf_entered {b : AvailableBuffer} {aura : AuraBuffer} {part : Part}
    (hfs : ∃ fs, b.info = some (.object fs))
    (ha : T.fromEviovec part.vec part.length = .ok aura) (i : ℤ) :
    RecordOf T (entered b aura i) i part := by
  refine ⟨rfl, ?_, aura, aura, rfl, ha, rfl, rfl⟩
  obtain ⟨fs, hfs⟩ := hfs
  obtain ⟨fs', hadd, hget⟩ := get_objectAdd fs (lit "id") (.int (Int64.ofInt i))
  refine ⟨fs', ?_, hget⟩
  simp only [entered, hfs, Option.map_some, hadd]

theorem Represents.put (h : Represents mountpoint T d s) (hwf : StoreWf mountpoint d)
    {r : RecordId} {b : AvailableBuffer} {aura : AuraBuffer} {part : Part}
    (hr : d.currentBuf = some r) (hfs : ∃ fs, b.info = some (.object fs))
    (ha : T.fromEviovec part.vec part.length = .ok aura)
    (hput : PutInto mountpoint d r b aura part d') (hlt : d'.parts < 2 ^ 63) :
    Represents mountpoint T d' (s.put (r, part)) := by
  have hp := hput.parts
  have hn := h.bound
  have hnot := (hwf.loose r hr).1
  have hold : ∀ q ∈ d.buffers, d'.records q = d.records q := fun q hq => by
    rw [hput.records, Function.update_of_ne (ne_of_mem_of_not_mem hq hnot)]
  have hnew : d'.records r = some (entered b aura d.currentId) := by
    rw [hput.records, Function.update_self]
  obtain ⟨hdown, hdrop⟩ := h.fresh hwf (by omega)
  have hfind := hput.find hdown hdrop
  refine ⟨?_, ?_, ?_, ?_, fun e he => ?_, fun p k hk => ?_⟩
  · rw [hput.currentId, h.next]
    exact wrapS_succ_long hn (by omega)
  · rw [hp]
    exact Nat.succ_le_succ hn
  · rw [hput.buffers, h.buffers]
    simp [IdStore.put]
  · rw [hput.assigned, h.assigned, h.next]
    simp [IdStore.put]
  · rcases List.mem_append.1 he with he | he
    · rw [hold _ (h.buffers ▸ List.mem_map_of_mem he)]
      exact h.record e he
    · obtain rfl := List.mem_singleton.1 he
      refine ⟨_, hnew, ?_⟩
      rw [h.next]
      exact recordOf_entered hfs ha _
  · have hkept : ∀ {q l}, d.routes.find q = some l → d'.routes.find q = some l :=
      hput.find_of_some hdown hdrop
    rw [hput.buffers] at hk
    cases hk with
    | list => exact hkept (h.routes _ _ .list)
    | post => exact hkept (h.routes _ _ .post)
    | @download q b' hq hb =>
      rcases List.mem_append.1 hq with hq | hq
      · exact hkept (h.routes _ _ (.download hq (hold q hq ▸ hb)))
      · obtain rfl := List.mem_singleton.1 hq
        obtain rfl := Option.some.inj (hnew.symm.trans hb)
        rw [hfind, if_neg (downloadPath_ne_dropPath _ _)]
        exact if_pos rfl
    | @drop q b' hq hb =>
      rcases List.mem_append.1 hq with hq | hq
      · exact hkept (h.routes _ _ (.drop hq (hold q hq ▸ hb)))
      · obtain rfl := List.mem_singleton.1 hq
        obtain rfl := Option.some.inj (hnew.symm.trans hb)
        rw [hfind]
        exact if_pos rfl

theorem Represents.read {r : RecordId} {b : AvailableBuffer} {aura : AuraBuffer}
    (h : Represents mountpoint T d s) (hd : ReadFrom d r b aura d') :
    Represents mountpoint T d' s := by
  have hb := hd.record
  have haura := hd.buf
  obtain ⟨pos, st, rfl⟩ := hd.logged
  have hrec : ∀ q, q ≠ r → ({ d with stale := st }.setRecord r
      { b with buf := some { aura with pos := pos } }).records q = d.records q := fun q hq =>
    setRecord_of_ne hq _
  refine ⟨h.next, h.bound, h.buffers, h.assigned, fun e he => ?_, fun p k hk => ?_⟩
  · obtain ⟨b', hb', hof⟩ := h.record e he
    rcases eq_or_ne e.2.1 r with rfl | hne
    · obtain rfl : b = b' := Option.some.inj (hb.symm.trans hb')
      obtain ⟨aura', made, haura', hmade, hdata, hextra⟩ := hof.buf
      obtain rfl : aura = aura' := Option.some.inj (haura.symm.trans haura')
      exact ⟨_, setRecord_self _ _ _, hof.id, hof.info, _, made, rfl, hmade, hdata, hextra⟩
    · rw [hrec _ hne]
      exact ⟨b', hb', hof⟩
  · refine h.routes p k (hk.mono fun q hq b' hb' => ⟨hq, ?_⟩)
    rcases eq_or_ne q r with rfl | hne
    · rw [setRecord_self] at hb'
      cases hb'
      exact ⟨b, hb, rfl⟩
    · exact ⟨b', (hrec q hne).symm.trans hb', rfl⟩

/-- A path names at most one stored record. -/
theorem Represents.record_unique (h : Represents mountpoint T d s) {q r : RecordId}
    {b b' : AvailableBuffer} (hq : q ∈ d.buffers) (hr : r ∈ d.buffers)
    (hb' : d.records q = some b') (hb : d.records r = some b) (hid : b'.id.toNat = b.id.toNat) :
    q = r := by
  obtain ⟨part', he', -⟩ := h.entry hq hb'
  obtain ⟨part, he, -⟩ := h.entry hr hb
  exact congrArg (·.2.1) (s.eq_of_id_eq he' he hid)

theorem Represents.drop {r : RecordId} {b : AvailableBuffer} (h : Represents mountpoint T d s)
    (hwf : StoreWf mountpoint d) (hlt : d.parts < 2 ^ 63) (hr : r ∈ d.buffers)
    (hb : d.records r = some b) (hd : DropFrom mountpoint d r b d') :
    Represents mountpoint T d' (s.drop b.id.toNat) := by
  have hrec : ∀ q, q ≠ r → d'.records q = d.records q := fun q hq => by
    rw [hd.records, Function.update_of_ne hq]
  have hiff : ∀ e ∈ s.entries, e.2.1 = r ↔ e.1 = b.id.toNat := by
    intro e he
    obtain ⟨part, he', -⟩ := h.entry hr hb
    constructor
    · rintro rfl
      obtain ⟨b', hb', hof⟩ := h.record e he
      obtain rfl : b = b' := Option.some.inj (hb.symm.trans hb')
      rw [hof.id, Int.toNat_natCast]
    · intro hid
      rw [s.eq_of_id_eq he he' hid]
  refine ⟨hd.currentId.trans h.next, hd.parts ▸ h.bound, ?_, hd.assigned.trans h.assigned,
    fun e he => ?_, fun p k hk => ?_⟩
  · rw [hd.buffers, hwf.nodup.erase_eq_filter, h.buffers, List.filter_map]
    refine congrArg _ (List.filter_congr fun e he => ?_)
    rw [Bool.eq_iff_iff]
    simp [hiff e he]
  · obtain ⟨he, hne⟩ := List.mem_filter.1 he
    rw [hrec _ (fun hr => by simp [(hiff e he).1 hr] at hne)]
    exact h.record e he
  · have hkept : ∀ {q l}, q ≠ dropPath mountpoint b.id → q ≠ downloadPath mountpoint b.id →
        d.routes.find q = some l → d'.routes.find q = some l := by
      intro q l hdrop hdown hq
      rw [hd.routes, RouteTable.find_del, RouteTable.find_del, if_neg hdrop, if_neg hdown, hq]
    have hold : ∀ q b', q ∈ d'.buffers → d'.records q = some b' →
        q ∈ d.buffers ∧ d.records q = some b' ∧ b'.id.toNat ≠ b.id.toNat := by
      intro q b' hq hb'
      rw [hd.buffers, hwf.nodup.mem_erase_iff] at hq
      rw [hrec q hq.1] at hb'
      exact ⟨hq.2, hb', fun hid => hq.1 (h.record_unique hq.2 hr hb' hb hid)⟩
    obtain ⟨part, he, -, hid⟩ := h.entry hr hb
    cases hk with
    | list =>
      exact hkept (path_ne (by simp [lit])) (path_ne (by simp [lit])) (h.routes _ _ .list)
    | post =>
      exact hkept (path_ne (by simp [lit])) (path_ne (by simp [lit])) (h.routes _ _ .post)
    | @download q b' hq hb' =>
      obtain ⟨hq, hb', hne⟩ := hold q b' hq hb'
      obtain ⟨part', he', -, hid'⟩ := h.entry hq hb'
      refine hkept (downloadPath_ne_dropPath _ _) ?_ (h.routes _ _ (.download hq hb'))
      rw [hid, hid']
      exact fun hp => hne (downloadPath_inj (h.entry_lt hlt he') (h.entry_lt hlt he) hp)
    | @drop q b' hq hb' =>
      obtain ⟨hq, hb', hne⟩ := hold q b' hq hb'
      obtain ⟨part', he', -, hid'⟩ := h.entry hq hb'
      refine hkept ?_ (downloadPath_ne_dropPath _ _).symm (h.routes _ _ (.drop hq hb'))
      rw [hid, hid']
      exact fun hp => hne (dropPath_inj (h.entry_lt hlt he') (h.entry_lt hlt he) hp)

/-- The store, as far as it is known from what was assigned before and the requests taken since:
an identifier that is dropped was given to a part, and either before, or a request asked to drop
it. -/
structure StoreOf (mountpoint : Bytes) (T : AuraTransport) (old : List (ℤ × Part))
    (paths : List Bytes) (d : BufmodData) : Prop where
  kept : old <+: d.assigned
  store : d.parts < 2 ^ 63 → ∃ s, Represents mountpoint T d s ∧ ∀ i ∈ s.dropped,
    (i : ℤ) ∈ d.assigned.map Prod.fst
      ∧ ((i : ℤ) ∈ old.map Prod.fst ∨ dropPath mountpoint i ∈ paths)

theorem storeOf_rule (old : List (ℤ × Part)) (paths : List Bytes) :
    StoreRule mountpoint T (fun _ => True) (StoreOf mountpoint T old paths) where
  same hs hid hp h := by
    refine ⟨hs.assigned ▸ h.kept, fun hlt => ?_⟩
    obtain ⟨s, hrep, hdrop⟩ := h.store (hp.trans_lt hlt)
    exact ⟨s, hrep.same hs hid hp, hs.assigned ▸ hdrop⟩
  trans {d d' c} _ hwf ht h := by
    cases ht with
    | same hs hid hp =>
      refine ⟨hs.assigned ▸ h.kept, fun hlt => ?_⟩
      obtain ⟨s, hrep, hdrop⟩ := h.store (hp.trans_lt hlt)
      exact ⟨s, hrep.same hs hid hp, hs.assigned ▸ hdrop⟩
    | spent hs hid hp =>
      refine ⟨hs.assigned ▸ h.kept, fun hlt => ?_⟩
      obtain ⟨s, hrep, hdrop⟩ := h.store (by omega)
      exact ⟨s.skip, hrep.skip hs hid hp hlt, hs.assigned ▸ hdrop⟩
    | put hc hsize hr hb hfs ha hput =>
      refine ⟨?_, fun hlt => ?_⟩
      · rw [hput.assigned]
        exact h.kept.trans (List.prefix_append _ _)
      have hp := hput.parts
      obtain ⟨s, hrep, hdrop⟩ := h.store (by omega)
      refine ⟨_, hrep.put hwf hr hfs ha hput hlt, fun i hi => ?_⟩
      obtain ⟨hmem, hi⟩ := hdrop i hi
      rw [hput.assigned, List.map_append]
      exact ⟨List.mem_append_left _ hmem, hi⟩

/-- What was assigned so far counts as assigned before. -/
theorem StoreOf.restart {old : List (ℤ × Part)} {paths : List Bytes}
    (h : StoreOf mountpoint T old paths d) : StoreOf mountpoint T d.assigned [] d := by
  refine ⟨List.prefix_rfl, fun hlt => ?_⟩
  obtain ⟨s, hrep, hdrop⟩ := h.store hlt
  exact ⟨s, hrep, fun i hi => ⟨(hdrop i hi).1, .inl (hdrop i hi).1⟩⟩

theorem storeOf_mount : StoreOf mountpoint T [] [] (bufferMount mountpoint).fsd.modData := by
  refine ⟨List.nil_prefix, fun _ => ?_⟩
  refine ⟨.empty, ⟨rfl, Nat.zero_le _, rfl, rfl, by simp [IdStore.empty], fun p k hk => ?_⟩,
    by simp [IdStore.empty]⟩
  have hnil : ∀ q, (RouteTable.empty (H := BufferRoute)).find q = none := fun _ => rfl
  have hne : mountpoint ++ lit "/post" ≠ mountpoint ++ lit "/" := path_ne (by simp [lit])
  have hpost : ((RouteTable.empty (H := BufferRoute)).set (mountpoint ++ lit "/") .list).find
      (mountpoint ++ lit "/post") = none := by
    rw [RouteTable.find_set_of_none _ (hnil _), if_neg hne, hnil]
  change (RouteTable.set _ _ _).find p = some k
  rw [RouteTable.find_set_of_none _ hpost, RouteTable.find_set_of_none _ (hnil _)]
  cases hk with
  | list => rw [if_neg hne.symm, if_pos rfl]
  | post => rw [if_pos rfl]
  | download hr => cases hr
  | drop hr => cases hr

variable {E I : Type} [Evbuffer E I]

theorem storeOf_run {old : List (ℤ × Part)} (es : List (Bytes × UploadRequest E))
    {mp₀ mp : UploadMount BufmodData} (h₀ : Holds mountpoint (StoreOf mountpoint T old []) mp₀.fsd)
    (h : run (storeStep T) mp₀ es = some mp) :
    Holds mountpoint (StoreOf mountpoint T old (es.map Prod.fst)) mp.fsd := by
  have h₀ : Holds mountpoint
      (StoreOf mountpoint T old (([] : List (Bytes × UploadRequest E)).map Prod.fst)) mp₀.fsd := h₀
  refine run_history (C := fun _ _ => True)
    (I := fun es mp => Holds mountpoint (StoreOf mountpoint T old (es.map Prod.fst)) mp.fsd)
    h₀ (fun es s e s' _ hI _ hs => ?_) es (along_true es _) h
  rw [List.map_append]
  refine (storeOf_rule old (es.map Prod.fst)).request ?_ ?_ ?_ hs hI (fun _ _ _ _ => trivial)
  · intro d h
    refine ⟨h.kept, fun hlt => ?_⟩
    obtain ⟨s, hrep, hdrop⟩ := h.store hlt
    exact ⟨s, hrep, fun i hi => (hdrop i hi).imp_right (.imp_right (List.mem_append_left _))⟩
  · intro d r b aura d' hread hwf h
    obtain ⟨hp, hassigned⟩ : d'.parts = d.parts ∧ d'.assigned = d.assigned := by
      obtain ⟨pos, st, rfl⟩ := hread.logged
      exact ⟨rfl, rfl⟩
    refine ⟨hassigned ▸ h.kept, fun hlt => ?_⟩
    obtain ⟨s, hrep, hdrop⟩ := h.store (hp ▸ hlt)
    refine ⟨s, hrep.read hread, fun i hi => ?_⟩
    rw [hassigned]
    exact (hdrop i hi).imp_right (.imp_right (List.mem_append_left _))
  · intro r b d' hf hp hr hb hd hwf h
    refine ⟨hd.assigned ▸ h.kept, fun hlt => ?_⟩
    rw [hd.parts] at hlt
    obtain ⟨s, hrep, hdrop⟩ := h.store hlt
    refine ⟨_, hrep.drop hwf hlt hr hb hd, fun i hi => ?_⟩
    rw [hd.assigned]
    rcases List.mem_append.1 hi with hi | hi
    · exact (hdrop i hi).imp_right (.imp_right (List.mem_append_left _))
    · obtain rfl := List.mem_singleton.1 hi
      obtain ⟨part, he, -, hid⟩ := hrep.entry hr hb
      refine ⟨?_, .inr ?_⟩
      · rw [hrep.assigned, List.map_map]
        exact List.mem_map.2 ⟨_, s.sublist.subset he, rfl⟩
      · rw [← hid, ← hp]
        simp

theorem storeOf_mounted (es : List (Bytes × UploadRequest E)) {mp : UploadMount BufmodData}
    (h : run (storeStep T) (bufferMount mountpoint) es = some mp) :
    Holds mountpoint (StoreOf mountpoint T [] (es.map Prod.fst)) mp.fsd :=
  storeOf_run es ⟨rfl, storeWf_mount, storeOf_mount⟩ h

/-- What the listing shows of a stored record. -/
def ShownAs (d : BufmodData) (r : RecordId) (j : Json) : Prop :=
  ∃ b, d.records r = some b ∧ b.info = some j ∧ j.get (lit "id") = .int (Int64.ofInt b.id)

theorem storeStep_list {mp : UploadMount BufmodData} {request : UploadRequest E} {p : Bytes}
    (hf : mp.fsd.modData.routes.find p = some .list)
    (hfail : request.failures.headD false = false) :
    ∃ mp', storeStep T mp (p, request) = some mp' ∧ mp'.fsd.replies
      = [.json (.array (mp.fsd.modData.buffers.map fun r =>
          ((mp.fsd.modData.records r).bind AvailableBuffer.info).getD .null))] := by
  have hstep : storeStep T mp (p, request)
      = some { mp with fsd := rqListBuffers { mp.fsd with replies := [] } false } := by
    simp only [storeStep, hf, hfail]
  exact ⟨_, hstep, rfl⟩

theorem Represents.shown (h : Represents mountpoint T d s) :
    List.Forall₂ (ShownAs d) d.buffers (d.buffers.map fun r =>
      ((d.records r).bind AvailableBuffer.info).getD .null) := by
  rw [List.forall₂_map_right_iff, List.forall₂_same]
  intro r hr
  rw [h.buffers] at hr
  obtain ⟨e, he, rfl⟩ := List.mem_map.1 hr
  obtain ⟨b, hb, hof⟩ := h.record e he
  obtain ⟨fs, hfs, hget⟩ := hof.info
  refine ⟨b, hb, ?_, ?_⟩
  · rw [hb, Option.bind_some, hfs, Option.getD_some]
  · rw [hb, Option.bind_some, hfs, Option.getD_some, hget, hof.id]

/-- The stored buffers have increasing identifiers, each given out once in the whole run; exactly
the routes are there that the list of them calls for; and the listing shows them in order. -/
theorem routes_agree (T : AuraTransport) (mountpoint : Bytes)
    (es : List (Bytes × UploadRequest E)) (mp : UploadMount BufmodData)
    (h : run (storeStep T) (bufferMount mountpoint) es = some mp)
    (hparts : mp.fsd.modData.parts < 2 ^ 63) :
    (∃ ids : List ℤ,
        List.Forall₂ (fun r i => ∃ b, mp.fsd.modData.records r = some b ∧ b.id = i)
          mp.fsd.modData.buffers ids
        ∧ ids.Pairwise (· < ·) ∧ ids.Sublist (mp.fsd.modData.assigned.map Prod.fst))
      ∧ (mp.fsd.modData.assigned.map Prod.fst).Pairwise (· < ·)
      ∧ (∀ path route, mp.fsd.modData.routes.find path = some route
        ↔ LeadsTo mountpoint mp.fsd.modData.buffers mp.fsd.modData.records path route)
      ∧ ∀ request : UploadRequest E, request.failures.headD false = false →
        ∃ mp' infos, storeStep T mp (mountpoint ++ lit "/", request) = some mp'
          ∧ mp'.fsd.replies = [.json (.array infos)]
          ∧ List.Forall₂ (ShownAs mp.fsd.modData) mp.fsd.modData.buffers infos := by
  obtain ⟨-, hwf, hstore⟩ := storeOf_mounted es h
  obtain ⟨s, hrep, -⟩ := hstore.store hparts
  have hfst : mp.fsd.modData.assigned.map Prod.fst = s.assigned.map fun e => (e.1 : ℤ) := by
    rw [hrep.assigned, List.map_map]
    rfl
  refine ⟨⟨s.entries.map fun e => (e.1 : ℤ), ?_, ?_, ?_⟩, ?_, ?_, fun request hfail => ?_⟩
  · rw [hrep.buffers, List.forall₂_map_left_iff, List.forall₂_map_right_iff, List.forall₂_same]
    intro e he
    obtain ⟨b, hb, hof⟩ := hrep.record e he
    exact ⟨b, hb, hof.id⟩
  · have := s.entries_increasing
    rw [List.pairwise_map] at this ⊢
    exact this.imp fun h => by exact_mod_cast h
  · rw [hfst]
    exact s.sublist.map _
  · have := s.increasing
    rw [hfst, List.pairwise_map]
    rw [List.pairwise_map] at this
    exact this.imp fun h => by exact_mod_cast h
  · exact fun path route => ⟨hwf.routes path route, hrep.routes path route⟩
  · obtain ⟨mp', hs, hreply⟩ := storeStep_list (T := T) (hrep.routes _ _ .list) hfail
    exact ⟨mp', _, hs, hreply, hrep.shown⟩

theorem routes_agree_dropRun :
    ∃ mp, run (storeStep (.zeroed 0)) (bufferMount (lit "/buf")) (dropRun ++ uploadRun) = some mp
      ∧ mp.fsd.modData.assigned.map Prod.fst = [0, 1] ∧ mp.fsd.modData.buffers.length = 1
      ∧ ∀ path route, mp.fsd.modData.routes.find path = some route
        ↔ LeadsTo (lit "/buf") mp.fsd.modData.buffers mp.fsd.modData.records path route := by
  have hrun : (run (storeStep (.zeroed 0)) (bufferMount (lit "/buf")) (dropRun ++ uploadRun)).map
      (fun mp => (mp.fsd.modData.parts, mp.fsd.modData.assigned.map Prod.fst,
        mp.fsd.modData.buffers.length)) = some (2, [0, 1], 1) := by
    decide +kernel
  obtain ⟨mp, hmp, heq⟩ := Option.map_eq_some_iff.1 hrun
  simp only [Prod.mk.injEq] at heq
  obtain ⟨hparts, hassigned, hlen⟩ := heq
  exact ⟨mp, hmp, hassigned, hlen,
    (routes_agree (.zeroed 0) (lit "/buf") (dropRun ++ uploadRun) mp hmp (by omega)).2.2.1⟩

end AuraHttpd
