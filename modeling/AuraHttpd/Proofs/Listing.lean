import AuraHttpd.Proofs.FormatScan
import AuraHttpd.Proofs.NodeTable

/-!
# What a listing tells

The entry of an object has its name, number and kind and a description of each token of its
formats, and no two tokens are described alike, so an entry tells the formats
(`objectToJson_eq_iff`).  While tables are only replaced, a node's reply to `exports` is therefore
the same as another's exactly where their tables are, as far as a caller is concerned
(`listing_tells`).
-/

namespace AuraHttpd

open CString StepSystem

variable {C : UrpcCodes} {L : NodeLibs}

/-- Formats of tokens; a null is a format of none. -/
def OfTokens (C : UrpcCodes) (fmt : Option Bytes) : Prop := ∃ ts, fmt.getD [] = tokensText C ts

/-- What aura makes sure of: the number is an `int`, and the formats are made of tokens. -/
structure Describable (L : NodeLibs) (o : AuraObject) : Prop where
  id : -2 ^ 31 ≤ o.id ∧ o.id < 2 ^ 31
  args : OfTokens L.codes o.argFmt
  rets : OfTokens L.codes o.retFmt

/-- The objects are the same to a caller.  An empty format is as good as none. -/
structure SameSignature (L : NodeLibs) (o o' : AuraObject) : Prop where
  name : o.name = o'.name
  id : o.id = o'.id
  event : L.objectIsEvent o = L.objectIsEvent o'
  method : L.objectIsMethod o = L.objectIsMethod o'
  args : L.objectIsMethod o = true → o.argFmt.getD [] = o'.argFmt.getD []
  rets : o.retFmt.getD [] = o'.retFmt.getD []

section Formats

theorem formatToJson_getD (C : UrpcCodes) (fmt : Option Bytes) :
    ahttpdFormatToJson C fmt = ahttpdFormatToJson C (some (fmt.getD [])) := by
  cases fmt with
  | none => simp [ahttpdFormatToJson, formatToJsonLoop]
  | some fmt => rfl

theorem formatToJson_tokens {fmt : Option Bytes} {ts : List Token}
    (h : fmt.getD [] = tokensText C ts) :
    ahttpdFormatToJson C fmt = some (.array (ts.map Token.described)) := by
  rw [formatToJson_getD, h, ahttpdFormatToJson, formatToJsonLoop_tokens]
  rfl

/-- The description of a format tells it. -/
theorem formatToJson_inj {fmt fmt' : Option Bytes} (h : OfTokens C fmt) (h' : OfTokens C fmt')
    (heq : ahttpdFormatToJson C fmt = ahttpdFormatToJson C fmt') : fmt.getD [] = fmt'.getD [] := by
  obtain ⟨ts, hts⟩ := h
  obtain ⟨ts', hts'⟩ := h'
  rw [formatToJson_tokens hts, formatToJson_tokens hts', Option.some.injEq, Json.array.injEq] at heq
  have hinj : Function.Injective Token.described := fun _ _ => Token.described_inj
  rw [hts, hts', List.map_injective_iff.2 hinj heq]

theorem formatToJson_congr {fmt fmt' : Option Bytes} (h : fmt.getD [] = fmt'.getD []) :
    ahttpdFormatToJson C fmt = ahttpdFormatToJson C fmt' := by
  rw [formatToJson_getD, h, ← formatToJson_getD]

end Formats

section Entries

/-- The members of an object's entry. -/
theorem objectToJson_eq {o : AuraObject} (h : Describable L o) : ∃ args rets,
    ahttpdFormatToJson L.codes o.argFmt = some args
      ∧ ahttpdFormatToJson L.codes o.retFmt = some rets
      ∧ objectToJson L o = some (.object ([(lit "name", .string o.name),
          (lit "id", .int (Int64.ofInt o.id)),
          (lit "type", .string (if L.objectIsEvent o then lit "event" else lit "method"))]
        ++ (if L.objectIsMethod o then [(lit "afmt", args)] else []) ++ [(lit "rfmt", rets)])) := by
  obtain ⟨ts, hts⟩ := h.args
  obtain ⟨us, hus⟩ := h.rets
  refine ⟨_, _, formatToJson_tokens hts, formatToJson_tokens hus, ?_⟩
  unfold objectToJson
  rw [formatToJson_tokens hts, formatToJson_tokens hus]
  cases L.objectIsMethod o <;> simp [Json.objectAdd, lit]

theorem kind_inj {b b' : Bool} (h : (if b then lit "event" else lit "method")
    = if b' then lit "event" else lit "method") : b = b' := by
  have hne : lit "event" ≠ lit "method" := by decide
  cases b <;> cases b' <;> simp_all [eq_comm]

/-- Two entries are the same exactly where the objects are to a caller. -/
theorem objectToJson_eq_iff {o o' : AuraObject} (h : Describable L o) (h' : Describable L o') :
    objectToJson L o = objectToJson L o' ↔ SameSignature L o o' := by
  constructor
  · obtain ⟨args, rets, hargs, hrets, ho⟩ := objectToJson_eq h
    obtain ⟨args', rets', hargs', hrets', ho'⟩ := objectToJson_eq h'
    intro heq
    rw [ho, ho', Option.some.injEq, Json.object.injEq] at heq
    have hmethod : L.objectIsMethod o = L.objectIsMethod o' := by
      have hlen := congrArg List.length heq
      cases hm : L.objectIsMethod o <;> cases hm' : L.objectIsMethod o' <;> simp [hm, hm'] at hlen
        <;> rfl
    rw [hmethod] at heq
    obtain ⟨hhead, htail⟩ := List.append_inj' heq rfl
    obtain ⟨hhead, hmid⟩ := List.append_inj hhead rfl
    simp only [List.cons.injEq, Prod.mk.injEq, true_and, and_true, Json.string.injEq,
      Json.int.injEq] at hhead htail
    obtain ⟨hname, hid, hkind⟩ := hhead
    have hid := congrArg Int64.toInt hid
    rw [Int64.toInt_ofInt_of_le (by have := h.id.1; omega) (by have := h.id.2; omega),
      Int64.toInt_ofInt_of_le (by have := h'.id.1; omega) (by have := h'.id.2; omega)] at hid
    refine ⟨hname, hid, kind_inj hkind, hmethod, fun hm => ?_, ?_⟩
    · rw [hmethod] at hm
      rw [hm] at hmid
      simp only [if_true, List.cons.injEq, Prod.mk.injEq, true_and, and_true] at hmid
      exact formatToJson_inj h.args h'.args (by rw [hargs, hargs', hmid])
    · exact formatToJson_inj h.rets h'.rets (by rw [hrets, hrets', htail])
  · intro hsame
    unfold objectToJson
    rw [hsame.name, hsame.id, hsame.event, formatToJson_congr hsame.rets]
    have hargs := hsame.args
    rw [hsame.method] at hargs ⊢
    cases hm : L.objectIsMethod o' with
    | false => rfl
    | true => rw [formatToJson_congr (hargs hm)]

end Entries

section Runs

variable {mpoint : Mpoint} {routes : Routes} {es : List NodeEvent} {s : NodeFs}

theorem listingValid_of_run (h : run (nodeStep L mpoint) (nodeMount mpoint routes) es = some s)
    (hC : Along (nodeStep L mpoint) TableKept (nodeMount mpoint routes) es) :
    ListingKept s.table ∧ ListingValid L s.table :=
  run_inv (I := fun s => ListingKept s.table ∧ ListingValid L s.table) (by
    intro s e s' hI hCe hs
    have ht := nodeTrans_of_step hs
    exact ⟨hI.1.step ht, hI.2.step hI.1 hCe ht⟩) es
    ⟨by constructor <;> simp [nodeMount], by simp [ListingValid, nodeMount]⟩ hC h

/-- Where the table was kept, the reply has the entries of its objects. -/
theorem exports_of_run (h : run (nodeStep L mpoint) (nodeMount mpoint routes) es = some s)
    (hC : Along (nodeStep L mpoint) TableKept (nodeMount mpoint routes) es) {t : ExportTable}
    (ht : s.table.tbl = some t) : ∃ entries, (exports s.table).1 = .array entries
      ∧ List.Forall₂ (fun o j => objectToJson L o = some j) t.objects entries := by
  obtain ⟨hkept, hvalid, -, -⟩ := listingValid_of_run h hC
  obtain ⟨e, he⟩ := Option.ne_none_iff_exists'.1 (hkept.some_of_tbl (by simp [ht]))
  obtain ⟨-, t', entries, ht', hentries, hall⟩ := hvalid e he
  obtain rfl : t = t' := Option.some.inj (ht.symm.trans ht')
  refine ⟨entries, ?_, hall⟩
  simp [exports, he, hentries]

theorem forall₂_entries_iff : ∀ {os os' : List AuraObject} {js js' : List Json},
    (∀ o ∈ os, Describable L o) → (∀ o ∈ os', Describable L o) →
      List.Forall₂ (fun o j => objectToJson L o = some j) os js →
        List.Forall₂ (fun o j => objectToJson L o = some j) os' js' →
          (js = js' ↔ List.Forall₂ (SameSignature L) os os')
  | _, _, _, _, _, _, .nil, .nil => by simp
  | _, _, _, _, _, _, .nil, .cons _ _ => by simp
  | _, _, _, _, _, _, .cons _ _, .nil => by simp
  | o :: os, o' :: os', j :: js, j' :: js', hos, hos', .cons hj hjs, .cons hj' hjs' => by
    obtain ⟨ho, hos⟩ := List.forall_mem_cons.1 hos
    obtain ⟨ho', hos'⟩ := List.forall_mem_cons.1 hos'
    have hhead := objectToJson_eq_iff ho ho'
    rw [hj, hj', Option.some.injEq] at hhead
    rw [List.cons.injEq, List.forall₂_cons, hhead, forall₂_entries_iff hos hos' hjs hjs']

/-- Two nodes whose tables were only replaced answer `exports` alike exactly where their tables
have the same objects, in order, as far as a caller is concerned. -/
theorem listing_tells (L : NodeLibs) (mpoint mpoint' : Mpoint) (routes routes' : Routes)
    (es es' : List NodeEvent) (s s' : NodeFs)
    (h : run (nodeStep L mpoint) (nodeMount mpoint routes) es = some s)
    (h' : run (nodeStep L mpoint') (nodeMount mpoint' routes') es' = some s')
    (hC : Along (nodeStep L mpoint) TableKept (nodeMount mpoint routes) es)
    (hC' : Along (nodeStep L mpoint') TableKept (nodeMount mpoint' routes') es')
    (t t' : ExportTable) (ht : s.table.tbl = some t) (ht' : s'.table.tbl = some t')
    (hdesc : ∀ o ∈ t.objects, Describable L o) (hdesc' : ∀ o ∈ t'.objects, Describable L o) :
    (exports s.table).1 = (exports s'.table).1
      ↔ List.Forall₂ (SameSignature L) t.objects t'.objects := by
  obtain ⟨js, hjs, hall⟩ := exports_of_run h hC ht
  obtain ⟨js', hjs', hall'⟩ := exports_of_run h' hC' ht'
  rw [hjs, hjs', Json.array.injEq]
  exact forall₂_entries_iff hdesc hdesc' hall hall'

/-- A table is kept where none is taken away at all. -/
theorem along_tableKept {s : NodeFs} (h : NodeEvent.etblChanged none ∉ es) :
    Along (nodeStep L mpoint) TableKept s es := by
  refine along_of_always fun e he s => ?_
  rcases e with new | _ | _ | _ | _ | _
  case etblChanged =>
    rintro - rfl
    exact h he
  all_goals trivial

def pongTable : ExportTable := ⟨[⟨0, lit "pong", none, none, 0⟩], by simp⟩

/-- A table that comes to stay. -/
def pongRun : List NodeEvent := [.etblChanged (some pongTable)]

theorem listing_tells_pong : ∃ s s',
    run (nodeStep .plain onlineMpoint) (nodeMount onlineMpoint .empty) replacedRun = some s
      ∧ run (nodeStep .plain onlineMpoint) (nodeMount onlineMpoint .empty) pongRun = some s'
      ∧ (exports s.table).1 ≠ (exports s'.table).1 := by
  have hdesc : ∀ name, Describable .plain ⟨0, name, none, none, 0⟩ := by
    intro name
    exact ⟨by simp, ⟨[], rfl⟩, ⟨[], rfl⟩⟩
  refine ⟨_, _, rfl, rfl, ?_⟩
  rw [ne_eq, listing_tells .plain onlineMpoint onlineMpoint .empty .empty replacedRun pongRun _ _
    rfl rfl (along_tableKept (by simp [replacedRun])) (along_tableKept (by simp [pongRun]))
    pingTable pongTable rfl rfl (by simpa [pingTable, pingObject] using hdesc (lit "ping"))
    (by simpa [pongTable] using hdesc (lit "pong"))]
  rintro (_ | ⟨hsame, -⟩)
  exact absurd hsame.name (by decide)

end Runs

end AuraHttpd
