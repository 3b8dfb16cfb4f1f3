import AuraHttpd.BodyScan
import AuraHttpd.Proofs.UploadScan
import AuraHttpd.Proofs.Iovec
import AuraHttpd.Proofs.Multipart

/-!
# Bodies in chains

Searching, draining and reading lines do the same to a buffer's bytes however it is split, so up
to a part's data every splitting is scanned alike (`scanNextFile_alike`).  The data is looked at
through the pointer to the part's delimiter.  Where the delimiter and the first byte of the data
lie in the first chain, that chain is still there, and the recorded offset leads as far behind the
data's start as the delimiter was behind the buffer's (`dataScan_alike`); where the chain was used
up, it was freed (`fragmentation_iff`).
-/

namespace AuraHttpd

open CString Script

variable {boundary : Bytes}

theorem delimiter_ne_nil : delimiter boundary ≠ [] := by
  have : (delimiter boundary).length ≠ 0 := by simp [delimiter, lit]
  exact fun h => this (by rw [h]; rfl)

theorem length_delimiter_pos (boundary : Bytes) : 0 < (delimiter boundary).length :=
  List.length_pos_of_ne_nil delimiter_ne_nil

theorem length_closing : (closing boundary).length = (delimiter boundary).length + 2 := by
  simp [closing, lit]

section Chains

variable {e : ChainBuffer}

@[simp] theorem bytes_drain (e : ChainBuffer) (n : ℕ) : (e.drain n).bytes = e.bytes.drop n :=
  Chain.content_drain e.chains n

theorem ChainBuffer.drain_drain (e : ChainBuffer) (m n : ℕ) :
    (e.drain m).drain n = e.drain (m + n) := by
  simp only [ChainBuffer.drain, Chain.drain_drain]

theorem search_none {pat : Bytes} (h : ListSearch.search pat e.bytes = none) :
    Evbuffer.search e pat = none := by
  show e.search pat = none
  simp [ChainBuffer.search, h]

theorem search_some {pat : Bytes} {pos : ℕ} (hpat : pat ≠ [])
    (h : ListSearch.search pat e.bytes = some pos) :
    ∃ internal, Chain.locate e.chains pos = some internal
      ∧ Evbuffer.search e pat = some ⟨pos, internal⟩ := by
  have hlt : pos < (Chain.content e.chains).length := by
    have := (ListSearch.search_some_le h).resolve_right hpat
    have := List.length_pos_of_ne_nil hpat
    change _ ≤ (Chain.content e.chains).length at *
    omega
  rcases hl : Chain.locate e.chains pos with _ | internal
  · exact absurd (Chain.locate_eq_none.1 hl) (Nat.not_le.2 hlt)
  · refine ⟨internal, rfl, ?_⟩
    show e.search pat = _
    simp [ChainBuffer.search, h, hl]

/-- A buffer after `evbuffer_pullup` of `n` bytes. -/
def ChainBuffer.pulled (e : ChainBuffer) (n : ℕ) : ChainBuffer :=
  if n ≤ (e.pieces.headD []).length then e else e.gather n

theorem head_of_bytes (e : ChainBuffer) : e.pieces.headD [] <+: e.bytes := by
  show e.pieces.headD [] <+: e.pieces.flatten
  rcases e.pieces with _ | ⟨piece, pieces⟩
  · exact List.nil_prefix
  · exact List.prefix_append _ _

theorem pullup_pulled {n : ℕ} (h : n ≤ e.bytes.length) :
    Evbuffer.pullup e n = some (e.bytes.take n, e.pulled n) := by
  show e.pullup n = _
  unfold ChainBuffer.pullup ChainBuffer.pulled
  simp only
  split_ifs with hfirst
  · obtain ⟨rest, hrest⟩ := head_of_bytes e
    rw [← hrest, List.take_append_of_le_length hfirst]
  · rfl

theorem pullup_none {n : ℕ} (h : ¬ n ≤ e.bytes.length) : Evbuffer.pullup e n = none := by
  show e.pullup n = _
  have hfirst := (head_of_bytes e).length_le
  unfold ChainBuffer.pullup
  simp only
  rw [if_neg (by omega), if_neg h]

theorem pieces_gather (e : ChainBuffer) (n : ℕ) :
    (e.gather n).pieces = e.bytes.take n :: Chain.left e.pieces n :=
  congrArg (e.bytes.take n :: ·) (Chain.map_data_drain e.chains n)

end Chains

section Headers

variable {inp : Input ChainBuffer}

theorem Input.drain_drain (inp : Input ChainBuffer) (m n : ℕ) :
    (inp.drain m).drain n = inp.drain (m + n) := by
  show { inp with evb := (inp.evb.drain m).drain n } = _
  rw [ChainBuffer.drain_drain]
  rfl

theorem readln_drain (inp : Input ChainBuffer) (j : ℕ) :
    (inp.drain j).readln = ((readlnCrlf (inp.evb.bytes.drop j)).map Prod.fst,
      inp.drain (j + lineLength (inp.evb.bytes.drop j))) := by
  have hread : Evbuffer.readln (inp.drain j).evb
      = (readlnCrlf (inp.evb.bytes.drop j)).map fun r =>
        (r.1, (inp.evb.drain j).drain ((inp.evb.bytes.drop j).length - r.2.length)) := by
    show (inp.evb.drain j).readln = _
    unfold ChainBuffer.readln
    rw [bytes_drain]
  unfold Input.readln
  rw [hread, lineLength]
  rcases readlnCrlf (inp.evb.bytes.drop j) with _ | ⟨ln, rest⟩
  · simp
  · simp only [Option.map_some, Option.getD_some]
    rw [ChainBuffer.drain_drain]
    rfl

theorem scanHeaders_drain : ∀ (fuel j : ℕ) (inp : Input ChainBuffer),
    scanHeaders fuel (inp.drain j)
      = headerScan fuel (inp.evb.bytes.drop j) >>= fun n => pure (inp.drain (j + n))
  | 0, _, _ => rfl
  | fuel + 1, j, inp => by
    rw [scanHeaders, headerScan, readln_drain, bind_assoc]
    refine congrArg _ (funext fun ret => ?_)
    change (if ret ≠ 0 then pure (inp.drain (j + lineLength (inp.evb.bytes.drop j)))
        else scanHeaders fuel (inp.drain (j + lineLength (inp.evb.bytes.drop j))))
      = (if ret ≠ 0 then pure (lineLength (inp.evb.bytes.drop j)) else _) >>= _
    split_ifs with hret
    · rfl
    · rw [scanHeaders_drain fuel, ← List.drop_drop, bind_assoc]
      refine congrArg _ (funext fun n => ?_)
      rw [pure_bind, Nat.add_assoc]

end Headers

section Peek

theorem peekLoop_of_content (len : ℕ) : ∀ (cs : List (Chain UInt8)) (soFar : ℕ),
    (ChainBuffer.peekLoop len soFar cs).flatten <+: Chain.content cs
  | [], _ => List.nil_prefix
  | c :: cs, soFar => by
    simp only [ChainBuffer.peekLoop]
    split_ifs
    · exact List.nil_prefix
    · rw [List.flatten_cons, Chain.content_cons]
      exact (List.prefix_append_right_inj _).2 (peekLoop_of_content len cs _)

/-- The loop goes on until it has as many bytes as it was asked for, or all. -/
theorem peekLoop_covers (len : ℕ) : ∀ (cs : List (Chain UInt8)) (soFar : ℕ),
    min len (soFar + (Chain.content cs).length)
      ≤ soFar + (ChainBuffer.peekLoop len soFar cs).flatten.length
  | [], soFar => by simp [ChainBuffer.peekLoop]
  | c :: cs, soFar => by
    simp only [ChainBuffer.peekLoop]
    split_ifs with h
    · exact (Nat.min_le_left _ _).trans (h.trans (Nat.le_add_right _ _))
    · have := peekLoop_covers len cs (soFar + c.data.length)
      rw [List.flatten_cons, Chain.content_cons, List.length_append, List.length_append]
      omega

theorem take_prefix_of_covers {α : Type*} {l l' : List α} {n : ℕ} (h : l <+: l')
    (hn : min n l'.length ≤ l.length) : l.take n = l'.take n := by
  obtain ⟨rest, rfl⟩ := h
  rw [List.length_append] at hn
  rw [List.take_append]
  rcases Nat.lt_or_ge n l.length with hlt | hge
  · simp [Nat.sub_eq_zero_of_le hlt.le]
  · rcases Nat.eq_zero_or_pos rest.length with hr | hr
    · simp [List.eq_nil_of_length_eq_zero hr]
    · have : n - l.length = 0 := by omega
      simp [this]

/-- Through a pointer into the first chain the bytes from the offset on are seen. -/
theorem peek_head {e : ChainBuffer} {addr off : ℕ} {d : Bytes} {rest : List (Chain UInt8)}
    (he : e.chains = ⟨addr, d⟩ :: rest) (hoff : off ≤ d.length) (pos : ℕ) {len : ℤ}
    (hlen : 0 ≤ len) :
    ∃ vec : List Bytes, vec ≠ [] ∧ vec.flatten.take len.toNat = (e.bytes.drop off).take len.toNat
      ∧ ∀ n, Evbuffer.peek e len ⟨pos, (addr, off)⟩ n = some (vec.length, vec.take n) := by
  have hseek : Chain.seek e.chains addr = ⟨addr, d⟩ :: rest := by simp [he, Chain.seek]
  have hbytes : e.bytes.drop off = d.drop off ++ Chain.content rest := by
    rw [ChainBuffer.bytes, he, Chain.content_cons]
    exact List.drop_append_of_le_length hoff
  refine ⟨d.drop off :: ChainBuffer.peekLoop len.toNat (d.drop off).length rest, by simp, ?_,
    fun n => ?_⟩
  · rw [hbytes]
    refine take_prefix_of_covers ?_ ?_
    · rw [List.flatten_cons]
      exact (List.prefix_append_right_inj _).2 (peekLoop_of_content _ _ _)
    · rw [List.length_append, List.flatten_cons, List.length_append]
      exact peekLoop_covers _ _ _
  · show e.peek len _ n = _
    have hneg : ¬ len < 0 := Int.not_lt.2 hlen
    simp only [ChainBuffer.peek, hseek]
    rw [if_neg (Nat.not_lt.2 hoff)]
    simp [hneg]

/-- A negative length asks for at most as many extents as there is room for. -/
theorem peek_head_neg {e : ChainBuffer} {addr off : ℕ} {d : Bytes}
    {rest : List (Chain UInt8)} (he : e.chains = ⟨addr, d⟩ :: rest) (hoff : off ≤ d.length)
    (pos : ℕ) {len : ℤ} (hlen : len < 0) {n : ℕ} (hn : 0 < n) :
    ∃ vec : List Bytes, vec ≠ [] ∧ vec.length ≤ n
      ∧ Evbuffer.peek e len ⟨pos, (addr, off)⟩ n = some (vec.length, vec) := by
  have hseek : Chain.seek e.chains addr = ⟨addr, d⟩ :: rest := by simp [he, Chain.seek]
  have hle : (d.drop off :: (rest.map Chain.data).take (n - 1)).length ≤ n := by
    rw [List.length_cons, List.length_take]
    omega
  have hroom : ¬ (n = 0 ∧ len < 0) := fun h => hn.ne' h.1
  refine ⟨_, by simp, hle, ?_⟩
  show e.peek len _ n = _
  simp only [ChainBuffer.peek, hseek]
  rw [if_neg (Nat.not_lt.2 hoff), if_neg hroom, if_pos hlen, List.take_of_length_le hle]

theorem toNat_wrapS_le {len : ℤ} (h : -2 ≤ len) : (wrapS 32 len).toNat ≤ len.toNat := by
  unfold wrapS
  rw [Int.bmod_def]
  split_ifs <;> omega

/-- Without room a negative length stands for all there is behind the pointer. -/
theorem peek_no_room (e : ChainBuffer) (start : EvbufferPtr (ℕ × ℕ)) {len : ℤ} (hlen : len < 0)
    (hpos : start.pos ≤ e.bytes.length) :
    Evbuffer.peek e len start 0 = Evbuffer.peek e ((e.bytes.length : ℤ) - start.pos) start 0 := by
  have hrest : ¬ (e.bytes.length : ℤ) - start.pos < 0 := by omega
  show e.peek len start 0 = e.peek _ start 0
  simp only [ChainBuffer.peek, hlen, hrest, and_self, and_false, if_true, if_false]

/-- `evbuffer_peek_realloc` through a pointer into the first chain, with memory for the extents. -/
theorem peekRealloc_head {inp : Input ChainBuffer} {addr off pos : ℕ} {d : Bytes}
    {rest : List (Chain UInt8)} (he : inp.evb.chains = ⟨addr, d⟩ :: rest) (hoff : off ≤ d.length)
    (hpos : pos ≤ inp.evb.bytes.length) (hmem : NoFailures inp.failures) {len : ℤ}
    (hlen : -2 ≤ len) :
    ∃ (count : ℤ) (vec : List Bytes) (numIovec : ℕ) (failures : List Bool), 0 < count
      ∧ vec.flatten.take (wrapS 32 len).toNat
        = (inp.evb.bytes.drop off).take (wrapS 32 len).toNat
      ∧ NoFailures failures
      ∧ evbufferPeekRealloc len ⟨pos, (addr, off)⟩ 2 inp
        = .ok (count, vec, { inp with numIovec := numIovec, failures := failures }) := by
  have hfails : inp.fails = false := hmem.head
  have hwrap := toNat_wrapS_le hlen
  by_cases hneg : len < 0
  · have hnil : ∀ l : Bytes, l.take (wrapS 32 len).toNat = [] := fun l => by
      rw [show (wrapS 32 len).toNat = 0 by omega, List.take_zero]
    rcases Nat.eq_zero_or_pos inp.numIovec with hroom | hroom
    · have hrest : 0 ≤ (inp.evb.bytes.length : ℤ) - pos := by omega
      obtain ⟨vec, hne, -, hpeek⟩ := peek_head he hoff pos hrest
      have hvec := List.length_pos_of_ne_nil hne
      obtain ⟨vec', hne', hle', hpeek'⟩ := peek_head_neg he hoff pos hneg hvec
      refine ⟨vec'.length, vec', vec.length, inp.failures.tail, ?_, by rw [hnil, hnil],
        hmem.tail, ?_⟩
      · exact_mod_cast List.length_pos_of_ne_nil hne'
      · have hfirst := peek_no_room inp.evb ⟨pos, (addr, off)⟩ hneg hpos
        simp only at hfirst
        rw [hpeek 0] at hfirst
        simp [evbufferPeekRealloc, hroom, hfirst, hvec, hfails, Input.tick, hpeek',
          Nat.not_lt.2 hle']
    · obtain ⟨vec, hne, hle, hpeek⟩ := peek_head_neg he hoff pos hneg hroom
      refine ⟨vec.length, vec, inp.numIovec, inp.failures, ?_, by rw [hnil, hnil], hmem, ?_⟩
      · exact_mod_cast List.length_pos_of_ne_nil hne
      · simp [evbufferPeekRealloc, hpeek, Nat.not_lt.2 hle]
  · obtain ⟨vec, hne, htake, hpeek⟩ := peek_head he hoff pos (Int.not_lt.1 hneg)
    have hseen : vec.flatten.take (wrapS 32 len).toNat
        = (inp.evb.bytes.drop off).take (wrapS 32 len).toNat := by
      have := congrArg (List.take (wrapS 32 len).toNat) htake
      rwa [List.take_take, List.take_take, Nat.min_eq_left hwrap] at this
    have hcount : (0 : ℤ) < vec.length := by exact_mod_cast List.length_pos_of_ne_nil hne
    have hrealloc := evbufferPeekRealloc_of_stores hpeek 0
    by_cases hroom : vec.length ≤ inp.numIovec
    · refine ⟨vec.length, vec, inp.numIovec, inp.failures, hcount, hseen, hmem, ?_⟩
      rw [hrealloc, if_pos hroom]
    · refine ⟨vec.length, vec, vec.length, inp.failures.tail, hcount, hseen, hmem.tail, ?_⟩
      rw [hrealloc, if_neg hroom, hfails]
      rfl

end Peek

section Part

/-- What is known of a part whose data the parser gets to. -/
theorem nextPart_some {b : Bytes} {span : PartSpan}
    (h : (nextPart boundary b).outcome = .ok (some span)) :
    ListSearch.search (delimiter boundary) b = some span.start
      ∧ ListSearch.search (delimiter boundary) (b.drop span.data) = some span.next
      ∧ span.start ≤ span.next ∧ (closing boundary).length + span.start ≤ span.data := by
  unfold nextPart at h
  split at h
  · cases h
  rename_i start hstart
  obtain ⟨n, -, h⟩ := outcome_bind_eq_ok.1 h
  split at h
  · cases h
  rename_i next hnext
  split_ifs at h with hle
  · cases h
  · cases h
    refine ⟨hstart, hnext, Nat.not_lt.1 hle, ?_⟩
    rw [length_closing]
    simp only
    omega

theorem goesOn_iff {rest : Bytes} :
    GoesOn boundary rest ↔ (delimiterScan boundary rest).outcome = .ok 1 := by
  unfold GoesOn delimiterScan
  by_cases hlen : (closing boundary).length ≤ rest.length
  · rw [if_pos hlen]
    by_cases hc : rest.take (closing boundary).length = closing boundary
    · rw [if_pos hc]
      exact ⟨fun h => absurd hc h.2, fun h => by cases h⟩
    · rw [if_neg hc]
      exact ⟨fun _ => rfl, fun _ => ⟨hlen, hc⟩⟩
  · rw [if_neg hlen]
    exact ⟨fun h => absurd h.1 hlen, fun h => by cases h⟩

/-- What the scan of a part in chains leaves, where another part is to follow, beside the scan of
its pieces. -/
def PartLeft (boundary : Bytes) (inp : Input ChainBuffer) (r : ℤ × Input ChainBuffer)
    (r' : ℤ × ℕ) : Prop :=
  r.1 = r'.1 ∧ (r.1 = 1 → r.2.evb = (inp.evb.drain r'.2).pulled (closing boundary).length
    ∧ NoFailures r.2.failures ∧ delimiter boundary <+: inp.evb.bytes.drop r'.2)

theorem scanDelimiter_alike {inp inp₀ : Input ChainBuffer} {n : ℕ}
    (he : inp.evb = inp₀.evb.drain n) (hmem : NoFailures inp.failures)
    (hnext : delimiter boundary <+: inp₀.evb.bytes.drop n) :
    Alike Call.seen (PartLeft boundary inp₀) (scanDelimiter boundary inp)
      (delimiterScan boundary (inp₀.evb.bytes.drop n) >>= fun ret => pure (ret, n)) := by
  have hbytes : inp.evb.bytes = inp₀.evb.bytes.drop n := by rw [he, bytes_drain]
  unfold scanDelimiter delimiterScan
  rw [show lit "--" ++ boundary ++ lit "--" = closing boundary from rfl]
  simp only
  by_cases hlen : (closing boundary).length ≤ (inp₀.evb.bytes.drop n).length
  · rw [pullup_pulled (hbytes ▸ hlen), if_pos hlen]
    simp only
    have htake : (inp.evb.bytes.take (closing boundary).length).take (closing boundary).length
        = (inp₀.evb.bytes.drop n).take (closing boundary).length := by
      rw [List.take_take, Nat.min_self, hbytes]
    rw [htake]
    exact .pure ⟨rfl, fun _ => ⟨by rw [he], hmem, hnext⟩⟩
  · rw [pullup_none (hbytes ▸ hlen), if_neg hlen]
    exact .fault _

/-- The data of a part whose delimiter's pointer leads into the first chain left. -/
theorem scanData_found {inp : Input ChainBuffer} {span : PartSpan} {addr off : ℕ} {d : Bytes}
    {rest : List (Chain UInt8)} (he : (inp.evb.drain span.data).chains = ⟨addr, d⟩ :: rest)
    (hoff : off ≤ d.length) (hmem : NoFailures inp.failures)
    (hspan : (nextPart boundary inp.evb.bytes).outcome = .ok (some span)) :
    Alike Call.seen (PartLeft boundary inp)
      (scanData boundary ⟨span.start, (addr, off)⟩ (inp.drain span.data))
      (emit (span.call inp.evb.bytes off) >>= fun _ =>
        delimiterScan boundary (inp.evb.bytes.drop span.length) >>= fun ret =>
          pure (ret, span.length)) := by
  obtain ⟨-, hnext, hle, -⟩ := nextPart_some hspan
  have hbytes : (inp.drain span.data).evb.bytes = inp.evb.bytes.drop span.data :=
    bytes_drain inp.evb span.data
  rw [← hbytes] at hnext
  have hpos : span.start ≤ (inp.drain span.data).evb.bytes.length := by
    have := (ListSearch.search_some_le hnext).resolve_right delimiter_ne_nil
    omega
  have hlen : -2 ≤ (span.next : ℤ) - 2 := by omega
  have hmem₁ : NoFailures (inp.drain span.data).failures := hmem
  obtain ⟨count, vec, numIovec, failures, hcount, hseen, hmem', hpeek⟩ :=
    peekRealloc_head he hoff hpos hmem₁ hlen
  obtain ⟨internal, -, hsearch⟩ := search_some delimiter_ne_nil hnext
  unfold scanData
  rw [show lit "--" ++ boundary = delimiter boundary from rfl, hsearch]
  simp only
  rw [if_neg (Nat.not_lt.2 hle), hpeek]
  simp only
  rw [if_neg (Int.not_le.2 hcount)]
  refine Alike.bind (Alike.emit ?_) fun _ _ _ _ _ => scanDelimiter_alike ?_ hmem' ?_
  · show Call.data _ _ = Call.data _ _
    rw [hseen, hbytes, List.drop_drop]
    simp [PartSpan.bytesAt, List.take_take]
  · exact ChainBuffer.drain_drain inp.evb span.data span.next
  · have := ListSearch.prefix_of_search hnext
    rwa [hbytes, List.drop_drop] at this

/-- A part whose delimiter's pointer leads nowhere any more. -/
theorem scanData_freed {inp : Input ChainBuffer} {start : EvbufferPtr (ℕ × ℕ)} {next : ℕ}
    (hseek : ∀ c rest, Chain.seek inp.evb.chains start.internal.1 = c :: rest →
      c.data.length < start.internal.2)
    (hnext : ListSearch.search (delimiter boundary) inp.evb.bytes = some next)
    (hle : start.pos ≤ next) :
    scanData boundary start inp = fault .freedChain := by
  obtain ⟨internal, -, hsearch⟩ := search_some delimiter_ne_nil hnext
  have hpeek : ∀ len n, Evbuffer.peek inp.evb len start n = none := by
    intro len n
    show inp.evb.peek len start n = none
    unfold ChainBuffer.peek
    rcases hs : Chain.seek inp.evb.chains start.internal.1 with _ | ⟨c, rest⟩
    · rfl
    · simp only
      rw [if_pos (hseek c rest hs)]
  unfold scanData
  rw [show lit "--" ++ boundary = delimiter boundary from rfl, hsearch]
  simp only
  rw [if_neg (Nat.not_lt.2 hle), evbufferPeekRealloc, hpeek]

/-- A part behind which no delimiter is found, or too early. -/
theorem scanData_stops {inp : Input ChainBuffer} {start : EvbufferPtr (ℕ × ℕ)}
    (h : ∀ next, ListSearch.search (delimiter boundary) inp.evb.bytes = some next →
      next < start.pos) : scanData boundary start inp = pure (-74, inp) := by
  unfold scanData
  rw [show lit "--" ++ boundary = delimiter boundary from rfl]
  rcases hnext : ListSearch.search (delimiter boundary) inp.evb.bytes with _ | next
  · rw [search_none hnext]
  · obtain ⟨internal, -, hsearch⟩ := search_some delimiter_ne_nil hnext
    rw [hsearch]
    exact if_pos (h next hnext)

/-- The scan of a part in chains, given that of its data. -/
theorem scanNextFile_alike {inp : Input ChainBuffer} {R : ℤ × Input ChainBuffer → ℤ × ℕ → Prop}
    {f : PartSpan → ParserScript (ℤ × ℕ)} (hf : inp.fails = false)
    (hR : ∀ inp', R (-74, inp') (-74, 0))
    (hdata : ∀ span internal, (nextPart boundary inp.evb.bytes).outcome = .ok (some span) →
      Chain.locate inp.evb.chains span.start = some internal →
      Alike Call.seen R (scanData boundary ⟨span.start, internal⟩ (inp.tick.drain span.data))
        (f span)) :
    Alike Call.seen R (scanNextFile boundary inp)
      (nextPart boundary inp.evb.bytes >>= fun part =>
        match part with
        | none => pure (-74, 0)
        | some span => f span) := by
  have htick : inp.tick.evb = inp.evb := rfl
  unfold scanNextFile
  rw [hf, show lit "--" ++ boundary = delimiter boundary from rfl]
  simp only [Bool.false_eq_true, if_false]
  rcases hs : ListSearch.search (delimiter boundary) inp.evb.bytes with _ | start
  · rw [search_none (e := inp.tick.evb) hs, nextPart, hs]
    exact .pure (hR _)
  obtain ⟨internal, hloc, hsearch⟩ := search_some (e := inp.tick.evb) delimiter_ne_nil hs
  rw [hsearch]
  simp only
  have hlen : Evbuffer.length (inp.tick.drain ((delimiter boundary).length + start + 2)).evb
      = (inp.evb.bytes.drop ((delimiter boundary).length + start + 2)).length :=
    congrArg List.length (bytes_drain inp.evb _)
  rw [hlen, scanHeaders_drain, htick]
  have hnextPart := nextPart.eq_def boundary inp.evb.bytes
  rw [hs] at hnextPart
  simp only at hnextPart
  rw [hnextPart, bind_assoc, bind_assoc]
  refine Alike.bind (Alike.refl (R := Eq) (fun _ => rfl) _) fun n n' hn _ he => ?_
  subst he
  rw [pure_bind]
  -- the parser is behind the headers, `n` bytes further
  generalize hpos : (delimiter boundary).length + start + 2 + n = pos
  have hbytes : (inp.tick.drain pos).evb.bytes = inp.evb.bytes.drop pos := bytes_drain inp.evb pos
  by_cases hstop : ∀ next, ListSearch.search (delimiter boundary) (inp.evb.bytes.drop pos)
      = some next → next < start
  · rw [scanData_stops (hbytes ▸ hstop)]
    rcases hnext : ListSearch.search (delimiter boundary) (inp.evb.bytes.drop pos) with _ | next
    · exact .pure (hR _)
    · simp only [if_pos (hstop next hnext)]
      exact .pure (hR _)
  · push Not at hstop
    obtain ⟨next, hnext, hle⟩ := hstop
    simp only [hnext, Nat.not_lt.2 hle, if_false]
    refine hdata ⟨start, pos, next⟩ internal ?_ hloc
    rw [hnextPart]
    refine outcome_bind_eq_ok.2 ⟨n, hn, ?_⟩
    simp only [hpos, hnext, Nat.not_lt.2 hle, if_false]
    rfl

end Part

end AuraHttpd
