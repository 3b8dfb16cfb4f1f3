import AuraHttpd.Proofs.BufferStore
import Mathlib.Algebra.BigOperators.Group.List.Basic

/-!
# The size of the store

`current_size` grows by the length of each part that is stored and is never lowered: a drop takes
its buffer off the list only.  So it is what the stored buffers hold as long as no buffer with
anything in it is dropped and every part's extents hold the length it comes with
(`size_accounting`), and what fits is then not refused.
-/

namespace AuraHttpd

open CString Script StepSystem

/-- The length of the payload of a record's buffer. -/
def payloadOf (d : BufmodData) (r : RecordId) : ℕ :=
  ((d.records r).bind AvailableBuffer.buf).elim 0 AuraBuffer.payloadLength

/-- What the stored buffers hold together. -/
def storedSize (d : BufmodData) : ℕ := (d.buffers.map (payloadOf d)).sum

/-- How much room a call asks for. -/
def Call.demand : Call → ℕ
  | formHeader _ _ => 0
  | data _ n => n.toNat

/-- A call for which the check of the size passes. -/
def HasRoom (d : BufmodData) : Call → Prop
  | .formHeader _ _ => True
  | .data _ n => sizeWith d n ≤ d.maxSize

section Scan

variable {E I : Type} [Evbuffer E I]

/-- Lengths handed to a callback are those of an `int`. -/
def Call.IntLength (c : Call) : Prop := ∀ vec n, c = .data vec n → -2 ^ 31 ≤ n ∧ n < 2 ^ 31

theorem intLength_wrapS (vec : List Bytes) (z : ℤ) : (Call.data vec (wrapS 32 z)).IntLength := by
  rintro vec' n ⟨⟩
  exact wrapS_mem 31 z

theorem scanHeaders_intLength (fuel : ℕ) (inp : Input E) {c : Call}
    (h : c ∈ (scanHeaders fuel inp).calls) : c.IntLength := by
  obtain ⟨key, value, rfl⟩ := scanHeaders_calls fuel inp c h
  rintro vec n ⟨⟩

theorem scanData_intLength (boundary : Bytes) (start : EvbufferPtr I) (inp : Input E) {c : Call}
    (h : c ∈ (scanData boundary start inp).calls) : c.IntLength := by
  rcases scanData_calls boundary start inp with ⟨hcs, -⟩ | ⟨vec, n, hcs⟩ <;> rw [hcs] at h
  · cases h
  · obtain rfl := List.mem_singleton.1 h
    exact intLength_wrapS _ _

theorem scanNextFile_intLength (boundary : Bytes) (inp : Input E) {c : Call}
    (h : c ∈ (scanNextFile boundary inp).calls) : c.IntLength := by
  unfold scanNextFile at h
  split_ifs at h
  · cases h
  · split at h
    · cases h
    · rcases mem_calls_bind h with h | ⟨_, h⟩
      · exact scanHeaders_intLength _ _ h
      · exact scanData_intLength _ _ _ h

theorem scanLoop_intLength (boundary : Bytes) : ∀ (fuel : ℕ) (inp : Input E) {c : Call},
    c ∈ (scanLoop boundary fuel inp).calls → c.IntLength
  | 0, _, _, h => by cases h
  | fuel + 1, inp, c, h => by
    rcases mem_calls_bind h with h | ⟨⟨ret, inp'⟩, h⟩
    · exact scanNextFile_intLength _ _ h
    · dsimp only at h
      split_ifs at h
      · exact scanLoop_intLength boundary fuel _ h
      · cases h

theorem calls_intLength (request : UploadRequest E) (numIovec : ℕ) :
    ∀ c ∈ request.calls numIovec, c.IntLength := by
  intro c h
  unfold UploadRequest.calls at h
  split at h
  · cases h
  · exact scanLoop_intLength _ _ _ h

end Scan

/-- A call whose extents hold the length it comes with. -/
def Call.Covered (c : Call) : Prop := ∀ vec n, c = .data vec n → AuraHttpd.Covered vec n

instance : ∀ c : Call, Decidable c.Covered
  | .formHeader _ _ => .isTrue fun _ _ h => by cases h
  | .data vec n => decidable_of_iff (AuraHttpd.Covered vec n)
    ⟨fun h _ _ he => by cases he; exact h, fun h => h vec n rfl⟩

/-- `current_size` is what is stored, and that is not too much. -/
structure SizeRight (d : BufmodData) : Prop where
  maxSize : d.maxSize = 8 * 1024 * 1024
  currentSize : d.currentSize = storedSize d
  le : d.currentSize ≤ d.maxSize

variable {mountpoint : Bytes} {T : AuraTransport} {d d' : BufmodData}

theorem sizeWith_eq {n : ℤ} (hmax : d.maxSize = 8 * 1024 * 1024) (hle : d.currentSize ≤ d.maxSize)
    (h0 : 0 ≤ n) (hn : n < 2 ^ 31) : sizeWith d n = d.currentSize + n.toNat := by
  rw [hmax] at hle
  unfold sizeWith wrapU
  omega

theorem storedSize_congr (hb : d'.buffers = d.buffers)
    (hp : ∀ r ∈ d.buffers, payloadOf d' r = payloadOf d r) : storedSize d' = storedSize d := by
  rw [storedSize, hb, List.map_congr_left hp, storedSize]

theorem SameStore.storedSize (hs : SameStore d d') : storedSize d' = storedSize d :=
  storedSize_congr hs.buffers fun r hr => by rw [payloadOf, hs.records r hr, payloadOf]

/-- A buffer that enters the store adds what it holds. -/
theorem PutInto.storedSize {r : RecordId} {b : AvailableBuffer} {aura : AuraBuffer} {part : Part}
    (hput : PutInto mountpoint d r b aura part d') (hnot : r ∉ d.buffers) :
    storedSize d' = storedSize d + aura.payloadLength := by
  have hold : ∀ q ∈ d.buffers, payloadOf d' q = payloadOf d q := fun q hq => by
    rw [payloadOf, hput.records, Function.update_of_ne (ne_of_mem_of_not_mem hq hnot), payloadOf]
  have hnew : payloadOf d' r = aura.payloadLength := by
    rw [payloadOf, hput.records, Function.update_self]
    rfl
  rw [AuraHttpd.storedSize, hput.buffers, List.map_append, List.sum_append,
    List.map_congr_left hold, List.map_singleton, List.sum_singleton, hnew, AuraHttpd.storedSize]

theorem ReadFrom.storedSize {r : RecordId} {b : AvailableBuffer} {aura : AuraBuffer}
    (hread : ReadFrom d r b aura d') : storedSize d' = storedSize d := by
  have hb := hread.record
  have haura := hread.buf
  obtain ⟨pos, st, rfl⟩ := hread.logged
  refine storedSize_congr rfl fun q _ => ?_
  rcases eq_or_ne q r with rfl | hne
  · rw [payloadOf, setRecord_self, payloadOf, hb, Option.bind_some, Option.bind_some, haura]
    rfl
  · rw [payloadOf, setRecord_of_ne hne, payloadOf]

/-- A buffer that is dropped takes what it holds with it. -/
theorem DropFrom.storedSize {r : RecordId} {b : AvailableBuffer} (hr : r ∈ d.buffers)
    (hd : DropFrom mountpoint d r b d') (hwf : StoreWf mountpoint d) :
    payloadOf d r + storedSize d' = storedSize d := by
  have hold : ∀ q ∈ d.buffers.erase r, payloadOf d' q = payloadOf d q := fun q hq => by
    have hne := (hwf.nodup.mem_erase_iff.1 hq).1
    rw [payloadOf, hd.records, Function.update_of_ne hne, payloadOf]
  rw [AuraHttpd.storedSize, hd.buffers, List.map_congr_left hold, AuraHttpd.storedSize,
    List.sum_map_erase (payloadOf d) hr]

theorem SizeRight.same (h : SizeRight d) (hs : SameStore d d') : SizeRight d' :=
  ⟨hs.maxSize.trans h.maxSize, by rw [hs.currentSize, hs.storedSize, h.currentSize],
    by rw [hs.currentSize, hs.maxSize]; exact h.le⟩

/-- What a call does to the size, its extents holding its length. -/
theorem StoreTrans.size {c : Call} (ht : StoreTrans mountpoint T d c d')
    (hwf : StoreWf mountpoint d) (hint : c.IntLength) (hcov : c.Covered) (h : SizeRight d) :
    SizeRight d' ∧ d'.currentSize ≤ d.currentSize + c.demand := by
  cases ht with
  | same hs => exact ⟨h.same hs, by rw [hs.currentSize]; exact Nat.le_add_right _ _⟩
  | spent hs => exact ⟨h.same hs, by rw [hs.currentSize]; exact Nat.le_add_right _ _⟩
  | @put vec n r b aura hc hsize hr hb hfs ha hput =>
    subst hc
    obtain ⟨h0, hn⟩ := hcov vec n rfl
    have heq := sizeWith_eq h.maxSize h.le h0 (hint vec n rfl).2
    have hlen : aura.payloadLength = n.toNat := by
      obtain ⟨aura', ha', hdata, -⟩ := T.from_covered vec n h0 hn
      obtain rfl : aura = aura' := Except.ok.inj (ha.symm.trans ha')
      rw [AuraBuffer.payloadLength, hdata, List.length_take]
      omega
    refine ⟨⟨hput.maxSize.trans h.maxSize, ?_, ?_⟩, ?_⟩
    · rw [hput.currentSize, heq, hput.storedSize (hwf.loose r hr).1, hlen, h.currentSize]
    · rw [hput.currentSize, hput.maxSize]
      exact hsize
    · rw [hput.currentSize, heq]
      exact le_rfl

theorem sizeRight_rule :
    StoreRule mountpoint T (fun c => c.IntLength ∧ c.Covered) SizeRight where
  same hs _ _ h := h.same hs
  trans hc hwf ht h := (ht.size hwf hc.1 hc.2 h).1

theorem SizeRight.read {r : RecordId} {b : AvailableBuffer} {aura : AuraBuffer}
    (hread : ReadFrom d r b aura d') (h : SizeRight d) : SizeRight d' := by
  have hsize := hread.storedSize
  obtain ⟨pos, st, rfl⟩ := hread.logged
  exact ⟨h.maxSize, hsize ▸ h.currentSize, h.le⟩

/-- A drop forgets to lower the size, which is right for an empty buffer only. -/
theorem SizeRight.drop {r : RecordId} {b : AvailableBuffer} (hr : r ∈ d.buffers)
    (hd : DropFrom mountpoint d r b d') (hwf : StoreWf mountpoint d) (h0 : payloadOf d r = 0)
    (h : SizeRight d) : SizeRight d' := by
  have hsize := hd.storedSize hr hwf
  rw [h0, Nat.zero_add] at hsize
  exact ⟨hd.maxSize.trans h.maxSize, by rw [hd.currentSize, hsize, h.currentSize],
    by rw [hd.currentSize, hd.maxSize]; exact h.le⟩

section Requests

variable {E I : Type} [Evbuffer E I]

/-- An upload's parts come with extents that hold their lengths, and a buffer that is dropped is
empty. -/
def KeepsSize (mp : UploadMount BufmodData) (e : Bytes × UploadRequest E) : Prop :=
  (mp.fsd.modData.routes.find e.1 = some .post → ∀ c ∈ e.2.calls mp.numIovec, c.Covered)
    ∧ ∀ r, mp.fsd.modData.routes.find e.1 = some (.drop r) → payloadOf mp.fsd.modData r = 0

instance (mp : UploadMount BufmodData) (e : Bytes × UploadRequest E) :
    Decidable (KeepsSize mp e) :=
  match hf : mp.fsd.modData.routes.find e.1 with
  | some .post => decidable_of_iff (∀ c ∈ e.2.calls mp.numIovec, c.Covered)
    ⟨fun h => ⟨fun _ => h, fun r hr => by rw [hf] at hr; cases hr⟩, fun h => h.1 hf⟩
  | some (.drop r) => decidable_of_iff (payloadOf mp.fsd.modData r = 0)
    ⟨fun h => ⟨fun hp => (by rw [hf] at hp; cases hp),
      fun r' hr => by rw [hf] at hr; cases hr; exact h⟩, fun h => h.2 r hf⟩
  | none => .isTrue ⟨fun hp => (by rw [hf] at hp; cases hp),
      fun r hr => by rw [hf] at hr; cases hr⟩
  | some .list => .isTrue ⟨fun hp => (by rw [hf] at hp; cases hp),
      fun r hr => by rw [hf] at hr; cases hr⟩
  | some (.download _) => .isTrue ⟨fun hp => (by rw [hf] at hp; cases hp),
      fun r hr => by rw [hf] at hr; cases hr⟩

theorem sizeRight_run {es : List (Bytes × UploadRequest E)} {mp : UploadMount BufmodData}
    (h : run (storeStep T) (bufferMount mountpoint) es = some mp)
    (hk : Along (storeStep T) KeepsSize (bufferMount mountpoint) es) :
    Holds mountpoint SizeRight mp.fsd := by
  refine run_inv (I := fun mp => Holds mountpoint SizeRight mp.fsd)
    (fun mp e mp' hI hk hs => ?_) es ⟨rfl, storeWf_mount, rfl, rfl, Nat.zero_le _⟩ hk h
  refine sizeRight_rule.request ?_ ?_ ?_ hs hI fun hf fsd c hc =>
    ⟨calls_intLength _ _ c hc.mem, hk.1 hf c hc.mem⟩
  · exact fun h => h
  · exact fun hread _ h => h.read hread
  · exact fun hf _ hr _ hd hwf h => h.drop hr hd hwf (hk.2 _ hf)

/-- In a state where the size is right, what fits into what is left is not refused. -/
theorem hasRoom_of_fits : ∀ (cs : List Call) {c : Call} (cs' : List Call)
    {fsd fsd' : Upfs BufmodData}, Holds mountpoint SizeRight fsd → HasInfo fsd.modData →
    (∀ c' ∈ cs ++ c :: cs', c'.IntLength ∧ c'.Covered) →
    fsd.modData.currentSize + ((cs ++ c :: cs').map Call.demand).sum ≤ fsd.modData.maxSize →
    fsd.uploadError = false → (buffermod T).replay fsd cs = .ok fsd' →
    fsd'.uploadError = false → HasRoom fsd'.modData c
  | [], c, cs', fsd, fsd', h, _, hc, hsum, _, hr, _ => by
    cases hr
    cases c with
    | formHeader key value => trivial
    | data vec n =>
      obtain ⟨hint, hcov⟩ := hc _ List.mem_cons_self
      rw [HasRoom, sizeWith_eq h.prop.maxSize h.prop.le (hcov vec n rfl).1 (hint vec n rfl).2]
      simp only [List.nil_append, List.map_cons, List.sum_cons, Call.demand] at hsum
      omega
  | a :: cs, c, cs', fsd, fsd', h, hi, hc, hsum, he, hr, he' => by
    rw [UploadfsModule.replay, replay_cons] at hr
    rcases hcall : (buffermod T).call fsd a with f | fsd₁ <;> rw [hcall] at hr
    · cases hr
    simp only [Except.bind] at hr
    cases he₁ : fsd₁.uploadError with
    | true =>
      rw [he₁, if_pos rfl] at hr
      cases hr
      rw [he₁] at he'
      cases he'
    | false =>
      simp only [he₁, Bool.false_eq_true, if_false] at hr
      obtain ⟨hint, hcov⟩ := hc a List.mem_cons_self
      obtain ⟨hmp, hwf, hst, hi'⟩ := call_store h.path h.wf hi hcall
      obtain ⟨hsize, hle⟩ := hst.size h.wf hint hcov h.prop
      refine hasRoom_of_fits cs cs' ⟨hmp, hwf, hsize⟩ (hi' he₁)
        (fun c' hc' => hc c' (List.mem_cons_of_mem _ hc')) ?_ he₁ hr he'
      simp only [List.cons_append, List.map_cons, List.sum_cons] at hsum
      rw [hsize.maxSize, ← h.prop.maxSize]
      omega

/-- The parts of an upload, whose extents hold their lengths, fit into what is left. -/
def Fits (mp : UploadMount BufmodData) (request : UploadRequest E) : Prop :=
  (∀ c ∈ request.calls mp.numIovec, c.Covered) ∧
    ((request.calls mp.numIovec).map Call.demand).sum
      ≤ mp.fsd.modData.maxSize - storedSize mp.fsd.modData

instance (mp : UploadMount BufmodData) (request : UploadRequest E) : Decidable (Fits mp request) :=
  inferInstanceAs (Decidable (_ ∧ _))

/-- Whichever of its calls an upload comes to, the check of the size passes there. -/
def NeverTooBig (T : AuraTransport) (mp : UploadMount BufmodData) (request : UploadRequest E) :
    Prop :=
  ∀ (fsd₀ fsd : Upfs BufmodData) (cs : List Call) (c : Call) (cs' : List Call),
    (buffermod T).callHook (request.start mp) = .ok fsd₀ → fsd₀.uploadError = false →
    request.calls mp.numIovec = cs ++ c :: cs' →
    (buffermod T).replay fsd₀ cs = .ok fsd → fsd.uploadError = false → HasRoom fsd.modData c

/-- In a run whose uploads come with extents that hold the parts' lengths, and in which no buffer
is dropped that holds anything, `current_size` is what the stored buffers hold, and an upload that
fits into the rest never fails the check of the size. -/
theorem size_accounting (T : AuraTransport) (mountpoint : Bytes)
    (es : List (Bytes × UploadRequest E)) (mp : UploadMount BufmodData)
    (h : run (storeStep T) (bufferMount mountpoint) es = some mp)
    (hk : Along (storeStep T) KeepsSize (bufferMount mountpoint) es) :
    mp.fsd.modData.currentSize = storedSize mp.fsd.modData
      ∧ ∀ request : UploadRequest E, Fits mp request → NeverTooBig T mp request := by
  have hh := sizeRight_run h hk
  refine ⟨hh.prop.currentSize, ?_⟩
  intro request hfits fsd₀ fsd cs c cs' hhook he₀ hcalls hreplay he
  obtain ⟨hmp, hkept, hcur⟩ := hook_kept (request.start mp) hh.path hh.wf hhook
  have h₀ : Holds mountpoint SizeRight fsd₀ :=
    ⟨hmp.trans hh.path, hkept.wf, hh.prop.same hkept.same⟩
  have hi₀ : HasInfo fsd₀.modData := fun r b hr => by
    rw [hcur] at hr
    cases hr
  refine hasRoom_of_fits cs cs' h₀ hi₀ (fun c' hc' => ?_) ?_ he₀ hreplay he
  · rw [← hcalls] at hc'
    exact ⟨calls_intLength _ _ c' hc', hfits.1 c' hc'⟩
  · have hsum := hfits.2
    have hle := hh.prop.le
    rw [← hcalls, hkept.same.currentSize, hkept.same.maxSize]
    change mp.fsd.modData.currentSize + _ ≤ mp.fsd.modData.maxSize
    rw [← hh.prop.currentSize] at hsum
    omega

end Requests

theorem keepsSize_uploadsRun :
    Along (storeStep (.zeroed 3)) KeepsSize (bufferMount (lit "/buf")) uploadsRun := by
  decide +kernel

/-- Behind the uploads five bytes are accounted for, and an upload that fits is not refused. -/
theorem size_accounting_uploadsRun :
    ∃ mp, run (storeStep (.zeroed 3)) (bufferMount (lit "/buf")) uploadsRun = some mp
      ∧ mp.fsd.modData.currentSize = 5 ∧ storedSize mp.fsd.modData = 5
      ∧ NeverTooBig (.zeroed 3) mp pairRequest := by
  have hrun : (run (storeStep (.zeroed 3)) (bufferMount (lit "/buf")) uploadsRun).map
      (fun mp => (mp.fsd.modData.currentSize, decide (Fits mp pairRequest))) = some (5, true) := by
    decide +kernel
  obtain ⟨mp, hmp, heq⟩ := Option.map_eq_some_iff.1 hrun
  obtain ⟨hsize, hfits⟩ := Prod.mk.inj heq
  obtain ⟨hacc, hroom⟩ := size_accounting (.zeroed 3) (lit "/buf") uploadsRun mp hmp
    keepsSize_uploadsRun
  exact ⟨mp, hmp, hsize, hacc.symm.trans hsize, hroom pairRequest (of_decide_eq_true hfits)⟩

/-- After the drop nothing is stored, and one byte is still accounted for. -/
theorem dropped_size_stays :
    ¬ ∀ (T : AuraTransport) (mountpoint : Bytes) (es : List (Bytes × UploadRequest Bytes))
      (mp : UploadMount BufmodData), run (storeStep T) (bufferMount mountpoint) es = some mp →
      mp.fsd.modData.currentSize = storedSize mp.fsd.modData := by
  intro hall
  have hrun : (run (storeStep (.zeroed 0)) (bufferMount (lit "/buf")) dropRun).map
      (fun mp => (mp.fsd.modData.currentSize, storedSize mp.fsd.modData)) = some (1, 0) := by
    decide +kernel
  obtain ⟨mp, hmp, heq⟩ := Option.map_eq_some_iff.1 hrun
  obtain ⟨hcur, hstored⟩ := Prod.mk.inj heq
  have := hall _ _ _ mp hmp
  omega

end AuraHttpd
