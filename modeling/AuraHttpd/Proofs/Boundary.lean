import AuraHttpd.Proofs.RoundTrip

/-!
# The boundary of a Content-Type

`request_check_headers` takes everything behind the first `boundary=` for the boundary.  No letter
of that text is a quote, a semicolon or a space, so it is found within a key or within a quoted
value, never across two of them (`behindBoundary_params`); and what is taken is the value of the
parameter where that is unquoted and the last, and nothing before it spells the text.
-/

namespace AuraHttpd

open CString ListSearch

/-- The value of a parameter, as a token or quoted. -/
inductive ParamValue where
  | token (text : Bytes)
  | quoted (text : Bytes)
  deriving DecidableEq, Repr

namespace ParamValue

def text : ParamValue → Bytes
  | token text | quoted text => text

def encode : ParamValue → Bytes
  | token text => text
  | quoted text => lit "\"" ++ text ++ lit "\""

end ParamValue

def typeParams : List (Bytes × ParamValue) → Bytes
  | [] => []
  | (key, value) :: ps => lit "; " ++ key ++ lit "=" ++ value.encode ++ typeParams ps

/-- The value of a Content-Type header with these parameters. -/
def multipartType (ps : List (Bytes × ParamValue)) : Bytes :=
  lit "multipart/form-data" ++ typeParams ps

/-- What no token contains, besides blanks and what is not ASCII. -/
def tspecials : Bytes := lit "()<>@,;:\\\"/[]?=\x7b\x7d"

def IsToken (t : Bytes) : Prop := t ≠ [] ∧ ∀ c ∈ t, 33 ≤ c ∧ c ≤ 126 ∧ c ∉ tspecials

/-- What can be quoted without escapes. -/
def IsQuotable (t : Bytes) : Prop := ∀ c ∈ t, c ≠ 34 ∧ c ≠ 92 ∧ HeaderByte c

def ParamValue.Valid : ParamValue → Prop
  | token text => IsToken text
  | quoted text => IsQuotable text

/-- A body with this boundary is accepted under the Content-Type: for any module, the calls for its
parts are made, and where they signal no error the upload is finalized as a success. -/
def AcceptsBody (contentType B : Bytes) : Prop :=
  ∀ {E I : Type} [Evbuffer E I] [FlatEvbuffer E I] (parts : List FormPart) (tail : Bytes)
    (request : UploadRequest E) (numIovec : ℕ), parts ≠ [] → (∀ p ∈ parts, p.Valid B) →
    (encodeBody B parts tail).length ≤ 2 ^ 31 - 1 → request.command = .post →
    request.contentType = some contentType →
    FlatEvbuffer.bytes request.body = encodeBody B parts tail →
    NoFailures request.parserFailures →
    ∃ calls, Decodes parts calls ∧
      ∀ {σ : Type} (m : UploadfsModule σ) (mp : UploadMount σ) (fsd fsd' : Upfs σ),
        mp.numIovec = numIovec → m.callHook (request.start mp) = .ok fsd →
        fsd.uploadError = false → m.replay fsd calls = .ok fsd' → fsd'.uploadError = false →
        (upload m mp request).map UploadMount.fsd = callFinalize m.finalize fsd' true

/-- The boundary is the value of its parameter, under which bodies are accepted, and there is none
without one. -/
def TakesBoundary (ps : List (Bytes × ParamValue)) : Prop :=
  (∀ v, (lit "boundary", v) ∈ ps →
    requestCheckHeaders (some (multipartType ps)) = some v.text
      ∧ AcceptsBody (multipartType ps) v.text)
    ∧ (lit "boundary" ∉ ps.map Prod.fst → requestCheckHeaders (some (multipartType ps)) = none)

/-- The parameter has the text `boundary=` in it, at the end of its key or within a quoted value. -/
def Spells (p : Bytes × ParamValue) : Prop :=
  lit "boundary" <:+ p.1 ∨ ∃ t, p.2 = .quoted t ∧ lit "boundary=" <:+: t

/-- No parameter spells the text, or only the last one, which is the parameter itself and a
token. -/
def BoundaryLast (ps : List (Bytes × ParamValue)) : Prop :=
  (∀ p ∈ ps, ¬ Spells p)
    ∨ ∃ pre t, ps = pre ++ [(lit "boundary", .token t)] ∧ ∀ p ∈ pre, ¬ Spells p

section Bytes

theorem IsToken.not_mem {t : Bytes} (h : IsToken t) :
    61 ∉ t ∧ 32 ∉ t ∧ 34 ∉ t ∧ ∀ c ∈ t, HeaderByte c := by
  refine ⟨fun hc => ?_, fun hc => ?_, fun hc => ?_, fun c hc => ⟨?_, ?_, ?_⟩⟩
  · exact (h.2 61 hc).2.2 (by decide)
  · exact absurd (h.2 32 hc).1 (by decide)
  · exact (h.2 34 hc).2.2 (by decide)
  · rintro rfl
    exact absurd (h.2 13 hc).1 (by decide)
  · rintro rfl
    exact absurd (h.2 10 hc).1 (by decide)
  · rintro rfl
    exact absurd (h.2 0 hc).1 (by decide)

end Bytes

section Search

variable {key text : Bytes} {v : ParamValue} {ps : List (Bytes × ParamValue)}

/-- The text behind the first `boundary=`. -/
def behindBoundary (text : Bytes) : Option Bytes :=
  (strstr text (lit "boundary=")).map (·.drop (lit "boundary=").length)

theorem behindBoundary_eq (text : Bytes) : behindBoundary text
    = (search (lit "boundary=") text).map fun n => text.drop (n + (lit "boundary=").length) := by
  rw [behindBoundary, strstr, Option.map_map]
  congr
  funext n
  rw [Function.comp_apply, List.drop_drop]

/-- The search goes on behind a separator where nothing before it spells the text. -/
theorem behindBoundary_past {data sep : Bytes} (rest : Bytes) (hdata : ¬ lit "boundary=" <:+: data)
    (hs : sep ≠ []) (hsep : ∀ c ∈ sep, c ∉ lit "boundary=") :
    behindBoundary (data ++ (sep ++ rest)) = behindBoundary rest := by
  rw [behindBoundary_eq, behindBoundary_eq, search_past hdata (by decide) hsep hs, Option.map_map]
  congr
  funext n
  have hlen : n + (data.length + sep.length) + (lit "boundary=").length
      = (data ++ sep).length + (n + (lit "boundary=").length) := by
    rw [List.length_append]
    omega
  rw [Function.comp_apply, hlen, ← List.append_assoc, ← List.drop_drop, List.drop_left]

theorem behindBoundary_none (h : ¬ lit "boundary=" <:+: text) : behindBoundary text = none := by
  rw [behindBoundary_eq, search_eq_none_iff.2 h, Option.map_none]

/-- Where the text is spelled, everything behind that is taken. -/
theorem behindBoundary_infix (rest : Bytes) (h : lit "boundary=" <:+: text) :
    ∃ x, behindBoundary (text ++ rest) = some (x ++ rest) := by
  rcases hsearch : search (lit "boundary=") text with _ | n
  · exact absurd h (search_eq_none_iff.1 hsearch)
  have hle := (search_some_le hsearch).resolve_right (by decide)
  refine ⟨text.drop (n + (lit "boundary=").length), ?_⟩
  rw [behindBoundary_eq, search_append_of_some rest hsearch, Option.map_some,
    List.drop_append_of_le_length hle]

theorem behindBoundary_self (rest : Bytes) :
    behindBoundary (lit "boundary=" ++ rest) = some rest := by
  rw [behindBoundary_eq, search_of_prefix (List.prefix_append _ _), Option.map_some, Nat.zero_add,
    List.drop_left]

/-- Before an equals sign the text is spelled by the end of the key. -/
theorem infix_key_iff (hkey : 61 ∉ key) (htext : 61 ∉ text) :
    lit "boundary=" <:+: key ++ lit "=" ++ text ↔ lit "boundary" <:+ key := by
  have hbody : (61 : UInt8) ∉ lit "boundary" := by decide
  have hsearch := search_concat text hbody hkey
  have hnone := search_concat_none (lit "boundary") htext
  have heq : key ++ lit "=" ++ text = key ++ 61 :: text := by
    rw [List.append_assoc]
    rfl
  rw [← not_iff_not, ← search_eq_none_iff, heq, show lit "boundary=" = lit "boundary" ++ [61]
    from rfl, hsearch]
  split_ifs with hs
  · simp [hs]
  · simp [hs, hnone]

end Search

section Params

variable {key : Bytes} {v : ParamValue} {ps pre : List (Bytes × ParamValue)}

theorem typeParams_append : typeParams (pre ++ ps) = typeParams pre ++ typeParams ps := by
  induction pre with
  | nil => rfl
  | cons p pre ih =>
    obtain ⟨key, value⟩ := p
    rw [List.cons_append, typeParams, typeParams, ih]
    simp only [List.append_assoc]

theorem typeParams_eq_nil_iff : typeParams ps = [] ↔ ps = [] := by
  rcases ps with _ | ⟨⟨key, value⟩, ps⟩
  · exact iff_of_true rfl rfl
  · exact iff_of_false (by simp [typeParams, lit]) (by simp)

theorem separator_apart : ∀ c ∈ lit "; ", c ∉ lit "boundary=" := by decide +kernel

theorem behindBoundary_cons (key : Bytes) (v : ParamValue) (ps : List (Bytes × ParamValue)) :
    behindBoundary (typeParams ((key, v) :: ps))
      = behindBoundary (key ++ lit "=" ++ v.encode ++ typeParams ps) := by
  have hnil : ¬ lit "boundary=" <:+: [] := by decide
  have := behindBoundary_past (key ++ lit "=" ++ v.encode ++ typeParams ps) hnil (by decide)
    separator_apart
  rw [List.nil_append] at this
  rw [← this, typeParams]
  simp only [List.append_assoc]

theorem behindBoundary_typeParams {text : Bytes} (h : ¬ lit "boundary=" <:+: text) :
    behindBoundary (text ++ typeParams ps) = behindBoundary (typeParams ps) := by
  rcases ps with _ | ⟨⟨key, v⟩, ps⟩
  · rw [typeParams, List.append_nil, behindBoundary_none h, behindBoundary_none (by decide)]
  · rw [behindBoundary_cons, typeParams, List.append_assoc, List.append_assoc, List.append_assoc,
      behindBoundary_past _ h (by decide) separator_apart, ← List.append_assoc,
      ← List.append_assoc]

/-- A parameter that does not spell the text is passed over. -/
theorem behindBoundary_skip (hkey : IsToken key) (hv : v.Valid) (h : ¬ Spells (key, v)) :
    behindBoundary (typeParams ((key, v) :: ps)) = behindBoundary (typeParams ps) := by
  have hend : ¬ lit "boundary" <:+ key := fun hs => h (.inl hs)
  rw [behindBoundary_cons]
  cases v with
  | token text =>
    exact behindBoundary_typeParams ((infix_key_iff hkey.not_mem.1 hv.not_mem.1).not.2 hend)
  | quoted text =>
    have hopen : ¬ lit "boundary=" <:+: key ++ lit "=" := by
      have := infix_key_iff hkey.not_mem.1 (List.not_mem_nil (a := 61))
      rw [List.append_nil] at this
      exact this.not.2 hend
    have hquote : ∀ c ∈ lit "\"", c ∉ lit "boundary=" := by decide +kernel
    have htext : ¬ lit "boundary=" <:+: text := fun hs => h (.inr ⟨text, rfl, hs⟩)
    rw [ParamValue.encode, List.append_assoc, List.append_assoc (lit "\"") text,
      List.append_assoc (lit "\""), behindBoundary_past _ hopen (by decide) hquote,
      List.append_assoc, behindBoundary_past _ htext (by decide) hquote]

/-- Behind one that does, everything is taken. -/
theorem behindBoundary_stop (ps : List (Bytes × ParamValue)) (hkey : IsToken key)
    (h : Spells (key, v)) :
    ∃ x, behindBoundary (typeParams ((key, v) :: ps)) = some (x ++ typeParams ps) := by
  rw [behindBoundary_cons]
  rcases h with hs | ⟨text, rfl, hs⟩
  · have hopen := infix_key_iff hkey.not_mem.1 (List.not_mem_nil (a := 61))
    obtain ⟨x, hx⟩ := behindBoundary_infix (v.encode ++ typeParams ps) (hopen.2 hs)
    refine ⟨x ++ v.encode, ?_⟩
    rw [List.append_nil] at hx
    rw [List.append_assoc, hx, List.append_assoc]
  · have htext : lit "boundary=" <:+: key ++ lit "=" ++ lit "\"" ++ text :=
      hs.trans (List.suffix_append _ _).isInfix
    obtain ⟨x, hx⟩ := behindBoundary_infix (lit "\"" ++ typeParams ps) htext
    refine ⟨x ++ lit "\"", ?_⟩
    rw [ParamValue.encode]
    simp only [List.append_assoc] at hx ⊢
    exact hx

theorem behindBoundary_append (ps : List (Bytes × ParamValue))
    (hpre : ∀ p ∈ pre, IsToken p.1 ∧ p.2.Valid) (h : ∀ p ∈ pre, ¬ Spells p) :
    behindBoundary (typeParams (pre ++ ps)) = behindBoundary (typeParams ps) := by
  induction pre with
  | nil => rfl
  | cons p pre ih =>
    obtain ⟨hp, hpre⟩ := List.forall_mem_cons.1 hpre
    obtain ⟨hs, h⟩ := List.forall_mem_cons.1 h
    rw [List.cons_append, behindBoundary_skip hp.1 hp.2 hs, ih hpre h]

theorem behindBoundary_of_spells (ps : List (Bytes × ParamValue))
    (hpre : ∀ p ∈ pre, IsToken p.1 ∧ p.2.Valid) (h : ∃ p ∈ pre, Spells p) :
    ∃ x, behindBoundary (typeParams (pre ++ ps)) = some (x ++ typeParams ps) := by
  induction pre with
  | nil =>
    obtain ⟨p, hp, -⟩ := h
    cases hp
  | cons p pre ih =>
    obtain ⟨hp, hpre⟩ := List.forall_mem_cons.1 hpre
    rw [List.cons_append]
    by_cases hs : Spells p
    · obtain ⟨x, hx⟩ := behindBoundary_stop (pre ++ ps) hp.1 hs
      exact ⟨x ++ typeParams pre, by rw [hx, typeParams_append, List.append_assoc]⟩
    · rw [behindBoundary_skip hp.1 hp.2 hs]
      obtain ⟨q, hq, hqs⟩ := h
      rcases List.mem_cons.1 hq with rfl | hq
      · exact absurd hqs hs
      · exact ih hpre ⟨q, hq, hqs⟩

/-- `request_check_headers` returns what stands behind the first place that spells the text. -/
theorem requestCheckHeaders_eq (ps : List (Bytes × ParamValue)) :
    requestCheckHeaders (some (multipartType ps)) = behindBoundary (typeParams ps) := by
  have hform : strstr (multipartType ps) (lit "multipart/form-data") = some (multipartType ps) := by
    rw [strstr, multipartType, search_of_prefix (List.prefix_append _ _)]
    rfl
  have hskip : behindBoundary (multipartType ps) = behindBoundary (typeParams ps) :=
    behindBoundary_typeParams (by decide +kernel)
  rw [← hskip, requestCheckHeaders, behindBoundary]
  simp only [Option.bind_eq_bind, Option.bind_some, hform]
  rcases strstr (multipartType ps) (lit "boundary=") with _ | boundary <;> rfl

end Params

section Taken

variable {ps : List (Bytes × ParamValue)}

theorem length_text_le (v : ParamValue) : v.text.length ≤ v.encode.length := by
  cases v with
  | token text => exact le_rfl
  | quoted text =>
    rw [ParamValue.encode, List.length_append, List.length_append]
    exact Nat.le_add_left _ _ |>.trans (Nat.le_add_right _ _)

/-- What is taken for the boundary is its parameter's value only where that is a token, stands last
and is not spelled before. -/
theorem boundaryLast_of_taken (hvalid : ∀ p ∈ ps, IsToken p.1 ∧ p.2.Valid)
    (hsome : ∀ v, (lit "boundary", v) ∈ ps → behindBoundary (typeParams ps) = some v.text)
    (hnone : lit "boundary" ∉ ps.map Prod.fst → behindBoundary (typeParams ps) = none) :
    BoundaryLast ps := by
  by_cases hmem : lit "boundary" ∈ ps.map Prod.fst
  · obtain ⟨⟨key, v⟩, hv, hkey⟩ := List.mem_map.1 hmem
    simp only at hkey
    subst hkey
    have htaken := hsome v hv
    obtain ⟨pre, post, rfl⟩ := List.append_of_mem hv
    have hpre : ∀ p ∈ pre, IsToken p.1 ∧ p.2.Valid := fun p hp =>
      hvalid p (List.mem_append_left _ hp)
    by_cases hspells : ∃ p ∈ pre, Spells p
    · obtain ⟨x, hx⟩ := behindBoundary_of_spells ((lit "boundary", v) :: post) hpre hspells
      have hlen := congrArg List.length (Option.some.inj (htaken.symm.trans hx))
      have hle := length_text_le v
      simp only [typeParams, List.length_append] at hlen
      have : 0 < (lit "; ").length := by decide
      omega
    have hclear : ∀ p ∈ pre, ¬ Spells p := fun p hp hs => hspells ⟨p, hp, hs⟩
    rw [behindBoundary_append _ hpre hclear, behindBoundary_cons,
      show lit "boundary" ++ lit "=" = lit "boundary=" from rfl, List.append_assoc,
      behindBoundary_self] at htaken
    have htext := Option.some.inj htaken
    have hle := length_text_le v
    have hpost : typeParams post = [] := by
      have := congrArg List.length htext
      rw [List.length_append] at this
      exact List.length_eq_zero_iff.1 (by omega)
    obtain rfl := typeParams_eq_nil_iff.1 hpost
    cases v with
    | token text => exact .inr ⟨pre, text, rfl, hclear⟩
    | quoted text =>
      have := congrArg List.length htext
      simp only [ParamValue.encode, ParamValue.text, typeParams, List.length_append] at this
      have : 0 < (lit "\"").length := by decide
      omega
  · refine .inl fun p hp hs => ?_
    obtain ⟨x, hx⟩ := behindBoundary_of_spells [] hvalid ⟨p, hp, hs⟩
    rw [List.append_nil] at hx
    cases hx.symm.trans (hnone hmem)

theorem taken_of_boundaryLast (hnodup : (ps.map Prod.fst).Nodup)
    (hvalid : ∀ p ∈ ps, IsToken p.1 ∧ p.2.Valid) (h : BoundaryLast ps) :
    (∀ v, (lit "boundary", v) ∈ ps →
        behindBoundary (typeParams ps) = some v.text ∧ IsToken v.text)
      ∧ (lit "boundary" ∉ ps.map Prod.fst → behindBoundary (typeParams ps) = none) := by
  rcases h with hclear | ⟨pre, t, rfl, hclear⟩
  · refine ⟨fun v hv => absurd (.inl List.suffix_rfl) (hclear _ hv), fun _ => ?_⟩
    have := behindBoundary_append [] hvalid hclear
    rw [List.append_nil] at this
    rw [this, typeParams, behindBoundary_none (by decide)]
  · have hlast : (lit "boundary", .token t) ∈ pre ++ [(lit "boundary", ParamValue.token t)] := by
      simp
    refine ⟨fun v hv => ?_, fun hnot => absurd (List.mem_map_of_mem hlast) hnot⟩
    obtain rfl : v = .token t := by
      simpa using List.inj_on_of_nodup_map hnodup hv hlast rfl
    refine ⟨?_, (hvalid _ hlast).2⟩
    rw [behindBoundary_append _ (fun p hp => hvalid p (List.mem_append_left _ hp)) hclear,
      behindBoundary_cons, show lit "boundary" ++ lit "=" = lit "boundary=" from rfl,
      List.append_assoc, behindBoundary_self, typeParams, List.append_nil]
    rfl

theorem acceptsBody_of_taken {contentType B : Bytes} (hB : ∀ c ∈ B, HeaderByte c)
    (h : requestCheckHeaders (some contentType) = some B) : AcceptsBody contentType B := by
  intro E I _ _ parts tail request numIovec hne hv hlen hpost htype hb hmem
  obtain ⟨calls, hdec, hloop⟩ := multipart_round_trip B parts tail
    { evb := request.body, numIovec := numIovec, failures := request.parserFailures } hB hne hv
    hlen hb hmem
  refine ⟨calls, hdec, fun m mp fsd fsd' hroom hhook herr hreplay herr' => ?_⟩
  obtain ⟨inp', hloop⟩ := hloop m fsd fsd' herr hreplay herr'
  subst hroom
  simp only [upload, hpost, ne_eq, not_true_eq_false, if_false]
  change Except.map _ (m.callHook (request.start mp) >>= _) = _
  rw [hhook, Except.ok_bind, herr]
  simp only [Bool.false_eq_true, if_false, htype, h, hloop, Except.ok_bind, lt_self_iff_false]
  rcases callFinalize m.finalize fsd' true with e | fsd'' <;> rfl

end Taken

/-- For every list of parameters with distinct keys: the boundary is the value of its parameter
exactly where that is the last and a token, and nothing before it spells the text. -/
theorem boundary_taken_iff (ps : List (Bytes × ParamValue)) (hnodup : (ps.map Prod.fst).Nodup)
    (hvalid : ∀ p ∈ ps, IsToken p.1 ∧ p.2.Valid) : TakesBoundary ps ↔ BoundaryLast ps := by
  unfold TakesBoundary
  rw [requestCheckHeaders_eq]
  constructor
  · rintro ⟨hsome, hnone⟩
    exact boundaryLast_of_taken hvalid (fun v hv => (hsome v hv).1) hnone
  · intro h
    obtain ⟨hsome, hnone⟩ := taken_of_boundaryLast hnodup hvalid h
    refine ⟨fun v hv => ⟨(hsome v hv).1, ?_⟩, hnone⟩
    exact acceptsBody_of_taken (hsome v hv).2.not_mem.2.2.2
      ((requestCheckHeaders_eq ps).trans (hsome v hv).1)

/-- The parameters as curl sends them. -/
theorem boundary_taken_curl : TakesBoundary [(lit "boundary", .token (lit "--d74496d6"))] := by
  refine (boundary_taken_iff _ (by decide) ?_).2 (.inr ⟨[], lit "--d74496d6", rfl, by simp⟩)
  intro p hp
  rw [List.mem_singleton.1 hp]
  exact ⟨⟨by decide, by decide +kernel⟩, ⟨by decide, by decide +kernel⟩⟩

/-- A quoted boundary is taken with its quotes. -/
theorem quotes_taken : ¬ ∀ ps : List (Bytes × ParamValue), (ps.map Prod.fst).Nodup →
    (∀ p ∈ ps, IsToken p.1 ∧ p.2.Valid) → TakesBoundary ps := by
  intro h
  have hvalid : ∀ p ∈ [(lit "boundary", ParamValue.quoted (lit "B"))], IsToken p.1 ∧ p.2.Valid := by
    intro p hp
    rw [List.mem_singleton.1 hp]
    exact ⟨⟨by decide, by decide +kernel⟩, by unfold ParamValue.Valid IsQuotable; decide +kernel⟩
  have htaken := ((h _ (by decide) hvalid).1 (.quoted (lit "B")) (by simp)).1
  revert htaken
  decide +kernel

/-- So is a parameter behind it. -/
example : requestCheckHeaders (some (multipartType
    [(lit "boundary", .token (lit "B")), (lit "charset", .token (lit "utf-8"))]))
      = some (lit "B; charset=utf-8") := by decide +kernel

end AuraHttpd
