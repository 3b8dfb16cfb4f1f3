import AuraHttpd.Proofs.BufferSize

/-!
# The store is bounded

`current_size` need not be what the stored buffers hold: a drop leaves it as it is, and an upload
may come with a length its extents do not cover.  It is never less than what they hold, though, and
never more than `max_size`, as no callback stores anything that its check has not let pass.  So
with a length that is not negative the sum that is checked stays far below `2 ^ 64`
(`store_bounded`).
-/

namespace AuraHttpd

open CString Script StepSystem

/-- `current_size` lies between what is stored and `max_size`. -/
structure SizeBounded (d : BufmodData) : Prop where
  maxSize : d.maxSize = 8 * 1024 * 1024
  stored : storedSize d ≤ d.currentSize
  le : d.currentSize ≤ d.maxSize

/-- A data call with a length from `0` to `INT_MAX`. -/
def Call.LengthInRange (c : Call) : Prop :=
  ∀ vec n, c = .data vec n → 0 ≤ n ∧ n ≤ 2 ^ 31 - 1

/-- The sum that is checked in a data call is the one of the two numbers. -/
def NoWrap (d : BufmodData) (c : Call) : Prop :=
  ∀ vec n, c = .data vec n → sizeWith d n = d.currentSize + n.toNat

variable {mountpoint : Bytes} {T : AuraTransport} {d d' : BufmodData}

theorem SizeBounded.storedSize_le (h : SizeBounded d) : storedSize d ≤ d.maxSize :=
  h.stored.trans h.le

theorem SizeBounded.noWrap (h : SizeBounded d) {c : Call} (hc : c.LengthInRange) :
    NoWrap d c := by
  intro vec n hcall
  obtain ⟨h0, hn⟩ := hc vec n hcall
  exact sizeWith_eq h.maxSize h.le h0 (by omega)

theorem SizeBounded.same (h : SizeBounded d) (hs : SameStore d d') : SizeBounded d' :=
  ⟨hs.maxSize.trans h.maxSize, by rw [hs.storedSize, hs.currentSize]; exact h.stored,
    by rw [hs.currentSize, hs.maxSize]; exact h.le⟩

/-- A buffer that is made for `n` bytes holds no more, whatever the extents. -/
def AuraTransport.Bounded (T : AuraTransport) : Prop :=
  ∀ vec n b, 0 ≤ n → T.fromEviovec vec n = .ok b → b.payloadLength ≤ n.toNat

theorem bounded_zeroed (overhead : ℕ) : (AuraTransport.zeroed overhead).Bounded := by
  rintro vec n b - h
  obtain rfl := Except.ok.inj h
  exact List.length_take_le _ _

theorem sizeBounded_rule (hT : T.Bounded) :
    StoreRule mountpoint T Call.LengthInRange SizeBounded where
  same hs _ _ h := h.same hs
  trans {d d' c} hc hwf ht h := by
    cases ht with
    | same hs => exact h.same hs
    | spent hs => exact h.same hs
    | @put vec n r b aura hcall hsize hr hb hfs ha hput =>
      have hsum := h.noWrap hc vec n hcall
      have hlen := hT vec n aura (hc vec n hcall).1 ha
      have hstored := h.stored
      refine ⟨hput.maxSize.trans h.maxSize, ?_, ?_⟩
      · rw [hput.storedSize (hwf.loose r hr).1, hput.currentSize, hsum]
        omega
      · rw [hput.currentSize, hput.maxSize]
        exact hsize

theorem SizeBounded.read {r : RecordId} {b : AvailableBuffer} {aura : AuraBuffer}
    (hread : ReadFrom d r b aura d') (h : SizeBounded d) : SizeBounded d' := by
  have hsize := hread.storedSize
  obtain ⟨pos, st, rfl⟩ := hread.logged
  exact ⟨h.maxSize, hsize ▸ h.stored, h.le⟩

theorem SizeBounded.drop {r : RecordId} {b : AvailableBuffer} (hr : r ∈ d.buffers)
    (hd : DropFrom mountpoint d r b d') (hwf : StoreWf mountpoint d) (h : SizeBounded d) :
    SizeBounded d' := by
  have hsize := hd.storedSize hr hwf
  have hstored := h.stored
  refine ⟨hd.maxSize.trans h.maxSize, ?_, by rw [hd.currentSize, hd.maxSize]; exact h.le⟩
  rw [hd.currentSize]
  omega

section Requests

variable {E I : Type} [Evbuffer E I]

/-- The lengths an upload hands to its data callbacks are in range. -/
def LengthsInRange (T : AuraTransport) (mp : UploadMount BufmodData) (request : UploadRequest E) :
    Prop :=
  ∀ fsd c, request.Makes (buffermod T) mp fsd c → c.LengthInRange

/-- The lengths of a request to the path for uploads are in range. -/
def RequestInRange (T : AuraTransport) (mp : UploadMount BufmodData)
    (e : Bytes × UploadRequest E) : Prop :=
  mp.fsd.modData.routes.find e.1 = some .post → LengthsInRange T mp e.2

theorem sizeBounded_run (hT : T.Bounded) {es : List (Bytes × UploadRequest E)}
    {mp : UploadMount BufmodData} (h : run (storeStep T) (bufferMount mountpoint) es = some mp)
    (hr : Along (storeStep T) (RequestInRange T) (bufferMount mountpoint) es) :
    Holds mountpoint SizeBounded mp.fsd := by
  refine run_inv (I := fun mp => Holds mountpoint SizeBounded mp.fsd)
    (fun mp e mp' hI hr hs => ?_) es ⟨rfl, storeWf_mount, rfl, Nat.zero_le _, Nat.zero_le _⟩ hr h
  refine (sizeBounded_rule hT).request ?_ ?_ ?_ hs hI hr
  · exact fun h => h
  · exact fun hread _ h => h.read hread
  · exact fun _ _ hr _ hd hwf h => h.drop hr hd hwf

/-- In a run whose data callbacks are given lengths from `0` to `INT_MAX`, whatever of it fails and
is dropped, the stored buffers hold no more than `max_size`, before and behind every callback of an
upload and between the requests, and the sum that is checked does not wrap around. -/
theorem store_bounded (T : AuraTransport) (hT : T.Bounded) (mountpoint : Bytes)
    (es : List (Bytes × UploadRequest E)) (mp : UploadMount BufmodData)
    (h : run (storeStep T) (bufferMount mountpoint) es = some mp)
    (hr : Along (storeStep T) (RequestInRange T) (bufferMount mountpoint) es) :
    storedSize mp.fsd.modData ≤ mp.fsd.modData.maxSize
      ∧ ∀ request : UploadRequest E, LengthsInRange T mp request →
        ∀ fsd c, request.Makes (buffermod T) mp fsd c →
          storedSize fsd.modData ≤ fsd.modData.maxSize ∧ NoWrap fsd.modData c
            ∧ ∀ fsd', (buffermod T).call fsd c = .ok fsd' →
              storedSize fsd'.modData ≤ fsd'.modData.maxSize := by
  have hh := sizeBounded_run hT h hr
  refine ⟨hh.prop.storedSize_le, fun request hrange fsd c hm => ?_⟩
  obtain ⟨hf, hi⟩ := (sizeBounded_rule hT).makes hh hrange hm
  refine ⟨hf.prop.storedSize_le, hf.prop.noWrap (hrange fsd c hm), fun fsd' hcall => ?_⟩
  have hf' := ((sizeBounded_rule hT).call hf hi (hrange fsd c hm) hcall).1
  exact hf'.prop.storedSize_le

end Requests

theorem uploadsRun_inRange : Along (storeStep (.zeroed 3)) (RequestInRange (.zeroed 3))
    (bufferMount (lit "/buf")) uploadsRun := by
  refine keepsSize_uploadsRun.imp fun mp e hk hpost fsd c hm vec n hc => ?_
  obtain ⟨h0, -⟩ := hk.1 hpost c hm.mem vec n hc
  have hlt := (calls_intLength _ _ c hm.mem vec n hc).2
  exact ⟨h0, by omega⟩

/-- The parts that were uploaded are within the bound. -/
theorem store_bounded_uploadsRun :
    ∃ mp, run (storeStep (.zeroed 3)) (bufferMount (lit "/buf")) uploadsRun = some mp
      ∧ storedSize mp.fsd.modData = 5
      ∧ storedSize mp.fsd.modData ≤ mp.fsd.modData.maxSize ∧ mp.fsd.modData.maxSize = 8388608 := by
  have hrun : (run (storeStep (.zeroed 3)) (bufferMount (lit "/buf")) uploadsRun).map
      (fun mp => (storedSize mp.fsd.modData, mp.fsd.modData.maxSize)) = some (5, 8388608) := by
    decide +kernel
  obtain ⟨mp, hmp, heq⟩ := Option.map_eq_some_iff.1 hrun
  obtain ⟨hstored, hmax⟩ := Prod.mk.inj heq
  exact ⟨mp, hmp, hstored, (store_bounded (.zeroed 3) (bounded_zeroed 3) (lit "/buf") uploadsRun mp
    hmp uploadsRun_inRange).1, hmax⟩

end AuraHttpd
