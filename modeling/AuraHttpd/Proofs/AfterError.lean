import AuraHttpd.Proofs.UploadScan

/-!
# After an error

A watch over a module keeps a mark beside its data: whether a callback of the request has left
`upload_error` set.  A callback made in spite of it, a `finalize` that it failed apart, ends with
a fault of one's choice.  No request ends otherwise for the watch (`nothing_after_error`), so no
such callback is made, also not before a fault of the module's own.
-/

namespace AuraHttpd

open CString Script

variable {σ : Type}

/-- The data of an upload with a mark. -/
def Upfs.mark (fsd : Upfs σ) (failed : Bool) : Upfs (σ × Bool) :=
  { fsd with modData := (fsd.modData, failed) }

/-- The data of an upload without its mark. -/
def Upfs.unmark (fsd : Upfs (σ × Bool)) : Upfs σ := { fsd with modData := fsd.modData.1 }

/-- The mark says whether an error was signalled. -/
def Upfs.marked (fsd : Upfs σ) : Upfs (σ × Bool) := fsd.mark fsd.uploadError

/-- A mountpoint before a request. -/
def UploadMount.unfailed (mp : UploadMount σ) : UploadMount (σ × Bool) where
  fsd := mp.fsd.mark false
  numIovec := mp.numIovec

/-- A callback that ends with `f` if it is made behind an error of the request, or with
`upload_error` set. -/
def watch (f : Fault) (callback : Upfs σ → Except Fault (Upfs σ)) (fsd : Upfs (σ × Bool)) :
    Except Fault (Upfs (σ × Bool)) :=
  if fsd.modData.2 ∨ fsd.uploadError then .error f else (callback fsd.unmark).map Upfs.marked

/-- The module with the watch on all its callbacks, except on `finalize` of an upload that
failed. -/
def UploadfsModule.watched (m : UploadfsModule σ) (f : Fault) : UploadfsModule (σ × Bool) where
  inboundRequestHook := m.inboundRequestHook.map (watch f)
  handleFormHeader := m.handleFormHeader.map fun g fsd key value => watch f (g · key value) fsd
  handleData := m.handleData.map fun g fsd vec length => watch f (g · vec length) fsd
  finalize := m.finalize.map fun g fsd ok =>
    if ok then watch f (g · true) fsd else (g fsd.unmark false).map (Upfs.mark · fsd.modData.2)

variable {m : UploadfsModule σ} {f : Fault} {fsd : Upfs σ}

theorem marked_eq (h : fsd.uploadError = false) : fsd.marked = fsd.mark false := by
  rw [Upfs.marked, h]

theorem watch_passes {g : Upfs σ → Except Fault (Upfs σ)} (h : fsd.uploadError = false) :
    watch f g (fsd.mark false) = (g fsd).map Upfs.marked := by
  have hmark : ¬ ((fsd.mark false).modData.2 = true ∨ (fsd.mark false).uploadError = true) := by
    rintro (h' | h')
    · cases h'
    · exact Bool.false_ne_true (h.symm.trans h')
  exact if_neg hmark

theorem callHook_watched (h : fsd.uploadError = false) :
    (m.watched f).callHook (fsd.mark false) = (m.callHook fsd).map Upfs.marked := by
  unfold UploadfsModule.callHook UploadfsModule.watched
  rcases m.inboundRequestHook with _ | g
  · exact congrArg Except.ok (marked_eq h).symm
  · exact watch_passes h

theorem call_watched (h : fsd.uploadError = false) (c : Call) :
    (m.watched f).call fsd.marked c = (m.call fsd c).map Upfs.marked := by
  rw [marked_eq h]
  cases c with
  | formHeader key value =>
    unfold UploadfsModule.call UploadfsModule.callFormHeader UploadfsModule.watched
    rcases m.handleFormHeader with _ | g
    · exact congrArg Except.ok (marked_eq h).symm
    · exact watch_passes h
  | data vec length =>
    unfold UploadfsModule.call UploadfsModule.callData UploadfsModule.watched
    rcases m.handleData with _ | g
    · exact congrArg Except.ok (marked_eq h).symm
    · exact watch_passes h

theorem replay_watched : ∀ (cs : List Call) {fsd : Upfs σ}, fsd.uploadError = false →
    (m.watched f).replay fsd.marked cs = (m.replay fsd cs).map Upfs.marked
  | [], _, _ => rfl
  | c :: cs, fsd, h => by
    unfold UploadfsModule.replay
    rw [replay_cons, replay_cons, call_watched h]
    rcases m.call fsd c with e | fsd'
    · rfl
    cases hf : fsd'.uploadError with
    | true => simp [Except.map, Except.bind, hf, show fsd'.marked.uploadError = true from hf]
    | false =>
      have ih := replay_watched cs hf
      unfold UploadfsModule.replay at ih
      simpa [Except.map, Except.bind, hf, show fsd'.marked.uploadError = false from hf] using ih

theorem play_watched {α : Type} (h : fsd.uploadError = false) (x : ParserScript α) :
    (m.watched f).play fsd.marked x = (m.play fsd x).map fun r => (r.1.marked, r.2) := by
  have hreplay := replay_watched (m := m) (f := f) x.calls h
  unfold UploadfsModule.replay at hreplay
  unfold UploadfsModule.play play
  rw [hreplay]
  rcases Script.replay m.call Upfs.uploadError fsd x.calls with e | fsd'
  · rfl
  cases hf : fsd'.uploadError with
  | true => simp [Except.map, hf, show fsd'.marked.uploadError = true from hf]
  | false =>
    rcases x.outcome with e | a <;>
      simp [Except.map, hf, show fsd'.marked.uploadError = false from hf]

theorem finalize_failed_watched (fsd : Upfs σ) (failed : Bool) :
    (callFinalize (m.watched f).finalize (fsd.mark failed) false).map Upfs.unmark
      = callFinalize m.finalize fsd false := by
  unfold callFinalize UploadfsModule.watched
  rcases m.finalize with _ | g
  · rfl
  · show ((g { fsd with finalized := fsd.finalized ++ [false] } false).map
      (Upfs.mark · failed)).map Upfs.unmark
        = g { fsd with finalized := fsd.finalized ++ [false] } false
    rcases g { fsd with finalized := fsd.finalized ++ [false] } false with e | fsd' <;> rfl

theorem sendError_watched (fsd : Upfs σ) (failed : Bool) :
    (uploadfsUploadSendError (m.watched f).finalize (fsd.mark failed) none).map Upfs.unmark
      = uploadfsUploadSendError m.finalize fsd none :=
  finalize_failed_watched (({ fsd with uploadError := true } : Upfs σ).reply
    (.error 406 (lit "Not acceptable"))) failed

/-- `finalize` of an upload that succeeded passes the watch, as no error was signalled. -/
theorem finalize_watched (h : fsd.uploadError = false) :
    (callFinalize (m.watched f).finalize (fsd.mark false) true).map Upfs.unmark
      = callFinalize m.finalize fsd true := by
  unfold callFinalize UploadfsModule.watched
  rcases m.finalize with _ | g
  · rfl
  · show (watch f (g · true) (({ fsd with finalized := fsd.finalized ++ [true] } : Upfs σ).mark
      false)).map Upfs.unmark = g { fsd with finalized := fsd.finalized ++ [true] } true
    rw [watch_passes (show ({ fsd with finalized := fsd.finalized ++ [true] } : Upfs σ).uploadError
      = false from h)]
    rcases g { fsd with finalized := fsd.finalized ++ [true] } true with e | fsd' <;> rfl

theorem endUpload_watched {α : Type} {r : Option (ℤ × α)}
    (h : fsd.uploadError = false ∨ r = none) :
    (endUpload (m.watched f) fsd.marked r).map Upfs.unmark = endUpload m fsd r := by
  rcases r with _ | ⟨ret, a⟩
  · exact sendError_watched fsd _
  · have h := h.resolve_right (by simp)
    simp only [endUpload]
    split_ifs
    · exact sendError_watched fsd _
    · rw [marked_eq h]
      exact finalize_watched h

theorem uploadPlay_watched {E I : Type} [Evbuffer E I] (h : fsd.uploadError = false)
    (numIovec : ℕ) (request : UploadRequest E) :
    (uploadPlay (m.watched f) fsd.marked numIovec request).map Upfs.unmark
      = uploadPlay m fsd numIovec request := by
  unfold uploadPlay
  rcases requestCheckHeaders request.contentType with _ | boundary
  · exact sendError_watched fsd _
  simp only
  rw [play_watched h]
  rcases hp : m.play fsd (request.scan boundary numIovec) with e | ⟨fsd', r⟩
  · rfl
  refine endUpload_watched ?_
  rcases r with _ | r
  · exact .inr rfl
  · exact .inl (play_eq_some hp).1

/-- For every module and every request no header or data callback is made behind an error of the
request, nor is it finalized as a success, and a POST begins without the error of the request
before: with the watch all goes as it does. -/
theorem nothing_after_error {E I : Type} [Evbuffer E I] (m : UploadfsModule σ) (f : Fault)
    (mp : UploadMount σ) (request : UploadRequest E) :
    (upload (m.watched f) mp.unfailed request).map (fun mp => mp.fsd.unmark)
      = (upload m mp request).map UploadMount.fsd := by
  by_cases hpost : request.command = .post
  swap
  · simp only [upload, ne_eq, hpost, not_false_eq_true, if_true]
    rfl
  have hstart : (request.start mp).uploadError = false := rfl
  have hplay := upload_play (m := m.watched f) mp.unfailed request hpost
  have hhook := callHook_watched (m := m) (f := f) hstart
  have hmap : (upload (m.watched f) mp.unfailed request).map (fun mp => mp.fsd.unmark)
      = ((upload (m.watched f) mp.unfailed request).map UploadMount.fsd).map Upfs.unmark := by
    rcases upload (m.watched f) mp.unfailed request with e | mp' <;> rfl
  rw [hmap, hplay, upload_play mp request hpost,
    show request.start mp.unfailed = (request.start mp).mark false from rfl, hhook]
  rcases m.callHook (request.start mp) with e | fsd
  · rfl
  simp only [Except.map, Except.ok_bind]
  cases hf : fsd.uploadError with
  | true => simp [show fsd.marked.uploadError = true from hf]; rfl
  | false =>
    simp only [show fsd.marked.uploadError = false from hf, Bool.false_eq_true, if_false]
    exact uploadPlay_watched hf mp.numIovec request

end AuraHttpd
