import AuraHttpd.Upload

/-!
# The parameters of a Content-Disposition

`extract_key_value` looks for the text `key="`.  A quote closes that text, so in a value made of
parameters without quotes it stands exactly before the quotes that have `key=` before them: those
that open the value of a parameter whose key ends in `key`, and those that close a value that
itself ends in `key=` (`matchedText`).  The parameter of that key is found where the first such
quote opens its value, or what stands behind it decodes to the same text.
-/

namespace AuraHttpd

open CString ListSearch

/-- A list of parameters as it stands in the header. -/
def dispositionParams : List (Bytes × Bytes) → Bytes
  | [] => []
  | (key, value) :: ps =>
    lit "; " ++ key ++ lit "=\"" ++ value ++ lit "\"" ++ dispositionParams ps

def contentDisposition (ps : List (Bytes × Bytes)) : Bytes :=
  lit "form-data" ++ dispositionParams ps

/-- The text of a value, decoded and without slashes. -/
def decodedValue (value : Bytes) : Bytes := sanitizeString (cstr (decodeHtmlEntitiesUtf8 value))

/-- What stands between a parameter and the value of the next one. -/
def nextOpening : List (Bytes × Bytes) → Bytes
  | [] => []
  | (key, _) :: _ => lit "; " ++ key ++ lit "="

/-- What stands behind the first quote that has `key=` before it, up to the next quote. -/
def matchedText (key : Bytes) : List (Bytes × Bytes) → Option Bytes
  | [] => none
  | (k, v) :: ps =>
    if key <:+ k then some v
    else if key ++ lit "=" <:+ v then some (nextOpening ps)
    else matchedText key ps

/-- The value `r` found for `key` is that of its parameter, and there is none without one. -/
def FindsParam (key : Bytes) (ps : List (Bytes × Bytes)) (r : Option Bytes) : Prop :=
  (∀ v, (key, v) ∈ ps → r = some (decodedValue v)) ∧ (key ∉ ps.map Prod.fst → r = none)

/-- No key ends in `key`, and no value in `key=`. -/
def NoLookalike (key : Bytes) (ps : List (Bytes × Bytes)) : Prop :=
  ∀ p ∈ ps, ¬ key <:+ p.1 ∧ ¬ key ++ lit "=" <:+ p.2

instance : ∀ key, DecidablePred (NoLookalike key) := fun _ ps => List.decidableBAll _ ps

/-- Nothing before the parameter of `key` looks like it, or what does decodes to the same text.
A parameter that is there needs memory for its copy. -/
def Distinguished (key : Bytes) (ps : List (Bytes × Bytes)) (fails : Bool) : Prop :=
  if fails then key ∉ ps.map Prod.fst
  else NoLookalike key (ps.takeWhile (·.1 ≠ key))
    ∨ ∃ v t, (key, v) ∈ ps ∧ matchedText key ps = some t ∧ decodedValue t = decodedValue v

section Search

variable {key : Bytes} {ps : List (Bytes × Bytes)}

/-- The text behind the first `key="`. -/
def behindKey (key text : Bytes) : Option Bytes :=
  (strstr text (key ++ lit "=\"")).map (·.drop (key ++ lit "=\"").length)

theorem behindKey_none {text : Bytes} (htext : 34 ∉ text) : behindKey key text = none := by
  have hnone := search_concat_none (key ++ lit "=") htext
  rw [List.append_assoc] at hnone
  rw [behindKey, strstr, show lit "=\"" = lit "=" ++ [34] from rfl, hnone]
  rfl

/-- The search goes from one quote to the next. -/
theorem behindKey_quote {data rest : Bytes} (hkey : 34 ∉ key) (hdata : 34 ∉ data) :
    behindKey key (data ++ 34 :: rest)
      = if key ++ lit "=" <:+ data then some rest else behindKey key rest := by
  have hbody : (34 : UInt8) ∉ key ++ lit "=" := by
    rw [List.mem_append]
    exact not_or_intro hkey (by decide)
  have hsearch := search_concat rest hbody hdata
  rw [List.append_assoc] at hsearch
  unfold behindKey strstr
  rw [show lit "=\"" = lit "=" ++ [34] from rfl, hsearch]
  split_ifs with hs
  · have hlen := hs.length_le
    have hpos : data.length - (key ++ lit "=").length + (key ++ (lit "=" ++ [34])).length
        = (data ++ [34]).length := by
      simp only [List.length_append, List.length_singleton] at hlen ⊢
      omega
    rw [Option.map_some, Option.map_some, List.drop_drop, hpos,
      show data ++ 34 :: rest = data ++ [34] ++ rest by simp, List.drop_left]
  · rw [Option.map_map, Option.map_map, Option.map_map]
    refine congrArg (fun f => Option.map f _) (funext fun n => ?_)
    have hskip : (data ++ 34 :: rest).drop (data ++ [34]).length = rest := by
      rw [show data ++ 34 :: rest = data ++ [34] ++ rest by simp, List.drop_left]
    rw [List.length_append, List.length_singleton] at hskip
    simp only [Function.comp_apply]
    rw [Nat.add_comm n, ← List.drop_drop, hskip]

/-- What matches before a quote that opens a value is within the key. -/
theorem key_suffix_iff {pre k : Bytes} (hkey : 32 ∉ key) :
    key ++ lit "=" <:+ pre ++ [32] ++ k ++ lit "=" ↔ key <:+ k := by
  rw [List.suffix_append_self_iff]
  refine ⟨fun h => ?_, fun h => h.trans (List.suffix_append _ _)⟩
  rcases List.suffix_or_suffix_of_suffix h (List.suffix_append (pre ++ [32]) k) with hs | hs
  · exact hs
  obtain ⟨x, rfl⟩ := hs
  rcases List.suffix_concat_iff.1 (List.suffix_append_self_iff.1 h) with rfl | ⟨t, rfl, -⟩
  · exact List.suffix_rfl
  · exact absurd (by simp) hkey

/-- The text of a parameter, cut at its two quotes. -/
theorem dispositionParams_cons (pre k v : Bytes) :
    pre ++ dispositionParams ((k, v) :: ps)
      = pre ++ [59] ++ [32] ++ k ++ lit "=" ++ 34 :: (v ++ 34 :: dispositionParams ps) := by
  rw [dispositionParams, show lit "; " = [59] ++ [32] from rfl,
    show lit "=\"" = lit "=" ++ [34] from rfl, show lit "\"" = [34] from rfl]
  simp only [List.append_assoc, List.cons_append, List.nil_append]

/-- What is copied from the first `key="` on is the matched text. -/
theorem behindKey_params (hkey : 34 ∉ key ∧ 32 ∉ key) :
    ∀ {ps : List (Bytes × Bytes)} {pre : Bytes}, 34 ∉ pre → (∀ p ∈ ps, 34 ∉ p.1 ∧ 34 ∉ p.2) →
      (behindKey key (pre ++ dispositionParams ps)).map (·.takeWhile (· ≠ 34))
        = matchedText key ps
  | [], pre, hpre, _ => by
    rw [dispositionParams, List.append_nil, behindKey_none hpre]
    rfl
  | (k, v) :: ps, pre, hpre, hps => by
    obtain ⟨hk, hv⟩ := hps (k, v) List.mem_cons_self
    have hopen : (34 : UInt8) ∉ pre ++ [59] ++ [32] ++ k ++ lit "=" := by
      simp only [List.mem_append, not_or]
      exact ⟨⟨⟨⟨hpre, by decide⟩, by decide⟩, hk⟩, by decide⟩
    have ih := behindKey_params hkey (List.not_mem_nil (a := 34))
      fun p hp => hps p (List.mem_cons_of_mem _ hp)
    rw [dispositionParams_cons, behindKey_quote hkey.1 hopen, matchedText]
    simp only [key_suffix_iff hkey.2]
    split_ifs with hend hval
    · rw [Option.map_some, ListSearch.takeWhile_ne_append_cons hv]
    · rw [behindKey_quote hkey.1 hv, if_pos hval, Option.map_some]
      rcases ps with _ | ⟨⟨k', v'⟩, ps⟩
      · rfl
      obtain ⟨hk', -⟩ := hps (k', v') (by simp)
      rw [← List.nil_append (dispositionParams _), dispositionParams_cons,
        ListSearch.takeWhile_ne_append_cons]
      · rfl
      · simp only [List.mem_append, not_or]
        exact ⟨⟨⟨⟨by decide, by decide⟩, by decide⟩, hk'⟩, by decide⟩
    · rw [behindKey_quote hkey.1 hv, if_neg hval]
      exact ih

theorem extractKeyValue_eq (key cdsString : Bytes) (fails : Bool) :
    extractKeyValue key cdsString fails = if cdsString = [] ∨ fails = true then none
      else ((behindKey key cdsString).map (·.takeWhile (· ≠ 34))).map decodedValue := by
  simp only [extractKeyValue, behindKey]
  by_cases hnil : cdsString = []
  · rw [if_pos hnil, if_pos (.inl hnil)]
    rfl
  rw [if_neg hnil]
  rcases strstr cdsString (key ++ lit "=\"") with _ | pos
  · exact (ite_self none).symm
  cases fails
  · rw [if_neg (not_or_intro hnil Bool.false_ne_true)]
    rfl
  · rw [if_pos (.inr rfl)]
    rfl

/-- `extract_key_value` returns the matched text, decoded. -/
theorem extractKeyValue_disposition (hkey : 34 ∉ key ∧ 32 ∉ key)
    (hps : ∀ p ∈ ps, 34 ∉ p.1 ∧ 34 ∉ p.2) :
    extractKeyValue key (contentDisposition ps) false = (matchedText key ps).map decodedValue := by
  have hne : contentDisposition ps ≠ [] := List.append_ne_nil_of_left_ne_nil (by decide) _
  rw [extractKeyValue_eq, if_neg (not_or_intro hne Bool.false_ne_true), contentDisposition,
    behindKey_params hkey (by decide) hps]

end Search

section Matched

variable {key : Bytes} {ps : List (Bytes × Bytes)}

theorem matchedText_append {pre : List (Bytes × Bytes)} (h : NoLookalike key pre) :
    matchedText key (pre ++ ps) = matchedText key ps := by
  induction pre with
  | nil => rfl
  | cons p pre ih =>
    obtain ⟨hk, hv⟩ := h p List.mem_cons_self
    rw [List.cons_append, matchedText, if_neg hk, if_neg hv]
    exact ih fun q hq => h q (List.mem_cons_of_mem _ hq)

theorem matchedText_none_iff : matchedText key ps = none ↔ NoLookalike key ps := by
  constructor
  · intro h p hp
    induction ps with
    | nil => cases hp
    | cons q ps ih =>
      rw [matchedText] at h
      split_ifs at h with hk hv
      rcases List.mem_cons.1 hp with rfl | hp
      · exact ⟨hk, hv⟩
      · exact ih h hp
  · intro h
    have hnil : matchedText key (ps ++ []) = matchedText key [] := matchedText_append h
    rwa [List.append_nil] at hnil

/-- Without lookalikes the text matched is the value of the parameter. -/
theorem matchedText_param {v : Bytes} (hnodup : (ps.map Prod.fst).Nodup) (hv : (key, v) ∈ ps)
    (h : NoLookalike key (ps.takeWhile (·.1 ≠ key))) : matchedText key ps = some v := by
  have hsplit := List.takeWhile_append_dropWhile (p := (·.1 ≠ key)) (l := ps)
  rcases hd : ps.dropWhile (·.1 ≠ key) with _ | ⟨⟨k, w⟩, post⟩
  · rw [hd, List.append_nil] at hsplit
    have := List.mem_takeWhile_imp (hsplit.symm ▸ hv)
    simp at this
  have hk : k = key := by
    have := List.head?_dropWhile_not (·.1 ≠ key) ps
    rw [hd] at this
    simpa using this
  subst hk
  have hw : (k, w) ∈ ps := List.dropWhile_suffix _ |>.subset (hd ▸ List.mem_cons_self)
  obtain rfl : w = v := by
    simpa using List.inj_on_of_nodup_map hnodup hw hv rfl
  rw [← hsplit, hd, matchedText_append h, matchedText, if_pos List.suffix_rfl]

theorem findsParam_iff (hnodup : (ps.map Prod.fst).Nodup) (hkey : 34 ∉ key ∧ 32 ∉ key)
    (hps : ∀ p ∈ ps, 34 ∉ p.1 ∧ 34 ∉ p.2) (fails : Bool) :
    FindsParam key ps (extractKeyValue key (contentDisposition ps) fails)
      ↔ Distinguished key ps fails := by
  unfold FindsParam Distinguished
  cases fails with
  | true =>
    rw [extractKeyValue_eq, if_pos (.inr rfl), if_pos rfl]
    refine ⟨fun h hmem => ?_, fun h => ⟨fun v hv => ?_, fun _ => rfl⟩⟩
    · obtain ⟨⟨k, v⟩, hv, rfl⟩ := List.mem_map.1 hmem
      cases h.1 v hv
    · exact absurd (List.mem_map_of_mem hv) h
  | false =>
    rw [extractKeyValue_disposition hkey hps, if_neg Bool.false_ne_true]
    constructor
    · rintro ⟨hsome, hnone⟩
      by_cases hmem : key ∈ ps.map Prod.fst
      · obtain ⟨⟨k, v⟩, hv, rfl⟩ := List.mem_map.1 hmem
        obtain ⟨t, ht, htv⟩ := Option.map_eq_some_iff.1 (hsome v hv)
        exact .inr ⟨v, t, hv, ht, htv⟩
      · have hclear := matchedText_none_iff.1 (Option.map_eq_none_iff.1 (hnone hmem))
        exact .inl fun p hp => hclear p (List.takeWhile_subset _ hp)
    · intro h
      refine ⟨fun v hv => ?_, fun hmem => ?_⟩
      · rcases h with h | ⟨w, t, hw, ht, htw⟩
        · rw [matchedText_param hnodup hv h, Option.map_some]
        · obtain rfl : w = v := by
            simpa using List.inj_on_of_nodup_map hnodup hw hv rfl
          rw [ht, Option.map_some, htw]
      · rcases h with h | ⟨w, t, hw, -⟩
        · have hall : ps.takeWhile (·.1 ≠ key) = ps := by
            refine List.takeWhile_eq_self_iff.2 fun p hp => ?_
            simpa using fun heq : p.1 = key => hmem (heq ▸ List.mem_map_of_mem hp)
          rw [matchedText_none_iff.2 (hall ▸ h), Option.map_none]
        · exact absurd (List.mem_map_of_mem hw) hmem

end Matched

/-- For every list of parameters: the name and the file name are those of the parameters with
exactly these keys, exactly where no other parameter is taken for them. -/
theorem params_found_iff {σ : Type} (fsd : Upfs σ) (ps : List (Bytes × Bytes))
    (hnodup : (ps.map Prod.fst).Nodup) (hps : ∀ p ∈ ps, 34 ∉ p.1 ∧ 34 ∉ p.2) :
    (FindsParam (lit "name") ps (uploadfsGetContentDispositionName fsd (contentDisposition ps)).1
        ↔ Distinguished (lit "name") ps fsd.fails)
      ∧ (FindsParam (lit "filename") ps
          (uploadfsGetContentDispositionFilename fsd (contentDisposition ps)).1
        ↔ Distinguished (lit "filename") ps fsd.fails) :=
  ⟨findsParam_iff hnodup (by decide) hps _, findsParam_iff hnodup (by decide) hps _⟩

/-- The parameters as curl sends them. -/
theorem params_found_curl :
    (uploadfsGetContentDispositionName { modData := () } (contentDisposition
        [(lit "name", lit "f"), (lit "filename", lit "a.txt")])).1 = some (lit "f")
      ∧ (uploadfsGetContentDispositionFilename { modData := () } (contentDisposition
        [(lit "name", lit "f"), (lit "filename", lit "a.txt")])).1 = some (lit "a.txt") := by
  obtain ⟨hname, hfile⟩ := params_found_iff (σ := Unit) { modData := () }
    [(lit "name", lit "f"), (lit "filename", lit "a.txt")] (by decide) (by decide)
  refine ⟨(hname.2 (.inl ?_)).1 (lit "f") (by decide),
    (hfile.2 (.inl ?_)).1 (lit "a.txt") (by decide)⟩
  · decide +kernel
  · decide +kernel

/-- The key `filename` ends in `name`, and stands first here. -/
theorem filename_taken_for_name : ¬ ∀ ps : List (Bytes × Bytes), (ps.map Prod.fst).Nodup →
    (∀ p ∈ ps, 34 ∉ p.1 ∧ 34 ∉ p.2) →
    FindsParam (lit "name") ps
      (uploadfsGetContentDispositionName { modData := () } (contentDisposition ps)).1 := by
  intro h
  have hname := (h [(lit "filename", lit "a.txt"), (lit "name", lit "f")] (by decide)
    (by decide)).1 (lit "f") (by decide)
  revert hname
  decide +kernel

end AuraHttpd
