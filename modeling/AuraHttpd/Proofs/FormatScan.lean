import AuraHttpd.FormatScan
import AuraHttpd.CallResource
import AuraHttpd.Proofs.Arguments

/-!
# The scanners agree

One turn of each loop takes one token and leaves the text of the others: the digits behind `BIN`
are read by `atoi` and passed by `skipDot` as far as the dot, so none of them is taken for a
letter.  Over a list of tokens each scanner then makes or looks at one element for each
(`scanners_agree`), and what the writing loop has put is bounded by the fields it has come to,
wherever it is stopped (`marshal_within`).
-/

namespace AuraHttpd

open CString Script

variable (C : UrpcCodes) (W : AuraWire)

theorem UrpcCodes.case_buf : C.case C.buf = some .buf := by
  have hdisj := (List.nodup_append.1 C.nodup).2.2
  have hfind : IntType.all.find? (C.int · = C.buf) = none := by
    rw [List.find?_eq_none]
    intro t ht h
    exact hdisj _ (List.mem_map_of_mem ht) C.buf (by simp) (by simpa using h)
  have hne : C.buf ≠ C.bin := by
    have := (List.nodup_append.1 C.nodup).2.1
    simp only [List.nodup_cons, List.mem_cons] at this
    exact fun h => this.1 (.inl h.symm)
  simp [case, hfind, hne]

section Tokens

@[simp] theorem tokensText_nil : tokensText C [] = [] := rfl

theorem tokensText_int (t : IntType) (ts : List Token) :
    tokensText C (.field (.int t) :: ts) = C.int t :: tokensText C ts := by
  simp [tokensText, Token.text, Field.text]

theorem tokensText_bin (n : ℕ) (hn) (ts : List Token) :
    tokensText C (.field (.bin n hn) :: ts) = C.bin :: (decimal n ++ 46 :: tokensText C ts) := by
  simp [tokensText, Token.text, Field.text]

theorem tokensText_buf (ts : List Token) :
    tokensText C (.buf :: ts) = C.buf :: tokensText C ts := by
  simp [tokensText, Token.text]

theorem tokensText_fields (fs : List Field) :
    tokensText C (fs.map .field) = formatText C fs := by
  simp [tokensText, formatText, List.flatMap_map, Token.text]

@[simp] theorem tokensFetched_cons (t : Token) (ts : List Token) :
    tokensFetched (t :: ts) = t.fetched + tokensFetched ts := by
  simp [tokensFetched]

/-- Without `URPC_BUF` the tokens are fields. -/
theorem exists_fields : ∀ {ts : List Token}, Token.buf ∉ ts → ∃ fs : List Field, ts = fs.map .field
  | [], _ => ⟨[], rfl⟩
  | .field f :: ts, h => by
    obtain ⟨fs, rfl⟩ := exists_fields (List.not_mem_of_not_mem_cons h)
    exact ⟨f :: fs, rfl⟩
  | .buf :: ts, h => absurd List.mem_cons_self h

theorem cname_inj {s t : IntType} (h : s.cname = t.cname) : s = t := by
  have hall : ∀ s ∈ IntType.all, ∀ t ∈ IntType.all, s.cname = t.cname → s = t := by
    decide +kernel
  exact hall s s.mem_all t t.mem_all h

theorem cname_ne_buffer (t : IntType) : t.cname ≠ lit "buffer" := by
  have hall : ∀ t ∈ IntType.all, t.cname ≠ lit "buffer" := by decide +kernel
  exact hall t t.mem_all

/-- The names tell the tokens apart. -/
theorem Token.described_inj {s t : Token} (h : s.described = t.described) : s = t := by
  rcases s with (s | ⟨m, hm⟩) | _ <;> rcases t with (t | ⟨n, hn⟩) | _ <;>
    simp only [described, Json.string.injEq, Json.object.injEq, List.cons.injEq, Prod.mk.injEq,
      Json.int.injEq, reduceCtorEq, true_and, and_true] at h
  · rw [cname_inj h]
  · exact absurd h (cname_ne_buffer s)
  · have hm' := congrArg Int64.toInt h
    rw [Int64.toInt_ofInt_of_le (by omega) (by omega),
      Int64.toInt_ofInt_of_le (by omega) (by omega)] at hm'
    obtain rfl : m = n := by omega
    rfl
  · exact absurd h.symm (cname_ne_buffer t)
  · rfl

end Tokens

section Reading

theorem formatToJsonLoop_tokens : ∀ ts : List Token,
    formatToJsonLoop C (tokensText C ts) = some (ts.map Token.described)
  | [] => by simp [formatToJsonLoop]
  | .field (.int t) :: ts => by
    rw [tokensText_int]
    simp [formatToJsonLoop, C.case_int, formatToJsonLoop_tokens ts, Token.described]
  | .field (.bin n hn) :: ts => by
    have hpos : n ≠ 0 := by omega
    rw [tokensText_bin]
    simp [formatToJsonLoop, C.case_bin, atoi_decimal, skipDot_decimal, hpos,
      formatToJsonLoop_tokens ts, Token.described, Json.objectAdd]
  | .buf :: ts => by
    rw [tokensText_buf]
    simp [formatToJsonLoop, C.case_buf, formatToJsonLoop_tokens ts, Token.described]

/-- The reading loop makes one element for each token where the buffer holds the integers; where
it does not, libaura stops it. -/
theorem toJsonLoop_tokens : ∀ (ts : List Token) (buf : AuraBuffer), buf.pos ≤ buf.data.length →
    if buf.pos + tokensFetched ts ≤ buf.data.length then
      ∃ items buf', toJsonLoop C W (tokensText C ts) buf = some (items, buf')
        ∧ List.Forall₂ Token.Shown ts items
    else toJsonLoop C W (tokensText C ts) buf = none
  | [], buf, hpos => by
    rw [if_pos (by simpa [tokensFetched] using hpos)]
    exact ⟨[], buf, by simp [toJsonLoop], .nil⟩
  | .field (.int t) :: ts, buf, hpos => by
    rw [tokensText_int, tokensFetched_cons]
    simp only [toJsonLoop, C.case_int, Token.fetched]
    by_cases hroom : buf.pos + t.size ≤ buf.data.length
    · have hget : buf.getBytes t.size
          = some ((buf.data.drop buf.pos).take t.size, { buf with pos := buf.pos + t.size }) :=
        if_pos hroom
      have ih := toJsonLoop_tokens ts { buf with pos := buf.pos + t.size } hroom
      rw [Nat.add_assoc] at ih
      simp only [hget, Option.bind_eq_bind, Option.bind_some]
      split_ifs at ih ⊢ with hall
      · obtain ⟨items, buf', hloop, hshown⟩ := ih
        rw [hloop]
        exact ⟨_, _, rfl, .cons ⟨_, rfl⟩ hshown⟩
      · rw [ih]
        rfl
    · have hget : buf.getBytes t.size = none := if_neg hroom
      rw [if_neg (by omega), hget]
      rfl
  | .field (.bin n hn) :: ts, buf, hpos => by
    rw [tokensText_bin, tokensFetched_cons]
    have ih := toJsonLoop_tokens ts buf hpos
    simp only [toJsonLoop, C.case_bin, skipDot_decimal, Token.fetched, Nat.zero_add,
      Option.bind_eq_bind]
    split_ifs at ih ⊢ with hall
    · obtain ⟨items, buf', hloop, hshown⟩ := ih
      rw [hloop]
      exact ⟨_, _, rfl, .cons rfl hshown⟩
    · rw [ih]
      rfl
  | .buf :: ts, buf, hpos => by
    rw [tokensText_buf, tokensFetched_cons]
    have ih := toJsonLoop_tokens ts buf hpos
    simp only [toJsonLoop, C.case_buf, Token.fetched, Nat.zero_add, Option.bind_eq_bind]
    split_ifs at ih ⊢ with hall
    · obtain ⟨items, buf', hloop, hshown⟩ := ih
      rw [hloop]
      exact ⟨_, _, rfl, .cons rfl hshown⟩
    · rw [ih]
      rfl

end Reading

section Playing

variable {α : Type} (buf : AuraBuffer)

theorem after_pure (a : α) : buf.after (pure a) = some (a, buf) := rfl

theorem after_fault (e : Abort) : buf.after (fault e : Script MarshalAct Abort α) = none := rfl

theorem after_emit (a : MarshalAct) (f : PUnit → Script MarshalAct Abort α) :
    buf.after (emit a >>= f) = (buf.act a).toOption.bind fun buf => buf.after (f ⟨⟩) := by
  rw [AuraBuffer.after, play_bind rfl, play_emit]
  rcases buf.act a with e | buf' <;> rfl

@[simp] theorem after_turn (fmt : Bytes) (f : PUnit → Script MarshalAct Abort α) :
    buf.after (emit (.turn fmt) >>= f) = buf.after (f ⟨⟩) := after_emit _ _ _

@[simp] theorem after_look (i : ℕ) (f : PUnit → Script MarshalAct Abort α) :
    buf.after (emit (.look i) >>= f) = buf.after (f ⟨⟩) := after_emit _ _ _

@[simp] theorem after_put (bs : Bytes) (f : PUnit → Script MarshalAct Abort α) :
    buf.after (emit (.put bs) >>= f) = (buf.putBytes bs).bind fun buf => buf.after (f ⟨⟩) := by
  rw [after_emit, AuraBuffer.act]
  rcases buf.putBytes bs with _ | buf' <;> rfl

/-- The loop on a buffer is the buffer's play of the loop by itself. -/
theorem fromJsonLoop_after (json : Json) (fmt : Bytes) (i : ℕ) (buf : AuraBuffer) :
    fromJsonLoop C W json fmt i buf = buf.after (marshal C W json fmt i) := by
  fun_induction fromJsonLoop C W json fmt i buf with
  | case1 i buf => rw [marshal, after_pure]
  | case2 i buf c fmt t hc tmp htype ih =>
    simp only [marshal, hc, after_turn, after_look, if_pos htype, after_put, tmp]
    exact congrArg _ (funext ih)
  | case3 i buf c fmt t hc tmp htype =>
    simp only [marshal, hc, after_turn, after_look, if_neg htype, after_pure, tmp]
  | case4 i buf c fmt hc => simp only [marshal, hc, after_turn, after_fault]
  | case5 i buf c fmt hc s hs str tocopy rest hcopy ih =>
    simp only [marshal, hc, after_turn, after_look, hs, if_pos hcopy, after_put, str, tocopy]
    exact congrArg _ (funext ih)
  | case6 i buf c fmt hc s hs str tocopy rest hcopy ih =>
    simp only [marshal, hc, after_turn, after_look, hs, if_neg hcopy, after_fault, str, tocopy,
      Option.bind_eq_bind, Option.bind_none]
  | case7 i buf c fmt hc hs ih =>
    rw [ih, marshal]
    simp only [hc, after_turn]
    rcases hj : json.arrayGetIdx i with _ | _ | _ | _ | s | _ | _ <;> simp only [after_look]
  | case8 i buf c fmt hc ih =>
    rw [ih, marshal]
    simp only [hc, after_turn]

end Playing

section Marshal

variable (json : Json)

/-- One turn of the writing loop on a field: it looks at one element, and puts no more than the
field holds. -/
theorem marshal_field (f : Field) (fs : List Field) (i : ℕ) :
    ∃ puts : List Bytes, puts.flatten.length ≤ f.size
      ∧ marshal C W json (formatText C (f :: fs)) i
        = ⟨.turn (formatText C (f :: fs)) :: .look i :: puts.map .put, .ok ⟨⟩⟩ >>= fun _ : PUnit =>
          if (putField W f (json.arrayGetIdx i)).isSome then
            marshal C W json (formatText C fs) (i + 1)
          else pure (-1) := by
  cases f with
  | int t =>
    rw [formatText_int, marshal]
    simp only [C.case_int]
    rcases hj : json.arrayGetIdx i with _ | _ | v | _ | _ | _ | _
    case int =>
      refine ⟨[W.put t (t.store v.toInt)], ?_, ?_⟩
      · simp [W.length_put, Field.size]
      · simp only [Json.type, Json.getInt64, putField, Option.isSome_some, if_true]
        rfl
    all_goals
      refine ⟨[], Nat.zero_le _, ?_⟩
      simp only [Json.type, putField, Option.isSome_none, reduceCtorEq, if_false]
      rfl
  | bin n hn =>
    rw [formatText_bin, marshal]
    simp only [C.case_bin, skipDot_decimal]
    rcases hj : json.arrayGetIdx i with _ | _ | _ | _ | s | _ | _
    case string =>
      have hmin : min ((Json.stringText s).length : ℤ) (n : ℤ)
          = (min (Json.stringText s).length n : ℕ) := by omega
      refine ⟨[(Json.stringText s).take (min (Json.stringText s).length n)], ?_, ?_⟩
      · simp [Field.size]
      · simp only [atoi_decimal, hmin, Nat.cast_nonneg, if_true, Int.toNat_natCast, putField,
          Option.isSome_some]
        rfl
    all_goals
      refine ⟨[], Nat.zero_le _, ?_⟩
      simp only [putField, Option.isSome_some, if_true]
      rfl

/-- The writing loop comes to an end by itself. -/
theorem marshal_outcome : ∀ (fs : List Field) (i : ℕ),
    (marshal C W json (formatText C fs) i).outcome = .ok 0
      ∨ (marshal C W json (formatText C fs) i).outcome = .ok (-1)
  | [], i => .inl (by rw [formatText, List.flatMap_nil, marshal]; rfl)
  | f :: fs, i => by
    obtain ⟨puts, -, hturn⟩ := marshal_field C W json f fs i
    rw [hturn, bind_ok]
    split_ifs
    · exact marshal_outcome fs (i + 1)
    · exact .inr rfl

theorem oneTurnEach_field (f : Field) (fs : List Field) (i : ℕ) :
    oneTurnEach C ((f :: fs).map .field) i
      = .turn (formatText C (f :: fs)) :: .look i :: oneTurnEach C (fs.map .field) (i + 1) := by
  rw [List.map_cons, oneTurnEach, ← List.map_cons, tokensText_fields]

/-- A loop that returns zero takes one turn for each token. -/
theorem marshal_turns : ∀ (fs : List Field) (i : ℕ),
    (marshal C W json (formatText C fs) i).outcome = .ok 0 →
      (marshal C W json (formatText C fs) i).calls.filter (!·.isPut)
        = oneTurnEach C (fs.map .field) i
  | [], i, _ => by
    rw [formatText, List.flatMap_nil, marshal]
    rfl
  | f :: fs, i, h => by
    obtain ⟨puts, -, hturn⟩ := marshal_field C W json f fs i
    rw [hturn, bind_ok] at h ⊢
    split_ifs at h ⊢ with hput
    · have ih := marshal_turns fs (i + 1) h
      rw [oneTurnEach_field, ← ih]
      simp [MarshalAct.isPut]
    · simp [pure] at h

@[simp] theorem bytesPut_append (as bs : List MarshalAct) :
    bytesPut (as ++ bs) = bytesPut as + bytesPut bs := by
  simp [bytesPut]

@[simp] theorem turnsOf_append (as bs : List MarshalAct) :
    turnsOf (as ++ bs) = turnsOf as + turnsOf bs := List.countP_append

@[simp] theorem bytesPut_cons (a : MarshalAct) (as : List MarshalAct) :
    bytesPut (a :: as) = a.written + bytesPut as := by
  simp [bytesPut]

@[simp] theorem turnsOf_turn (fmt : Bytes) (as : List MarshalAct) :
    turnsOf (.turn fmt :: as) = turnsOf as + 1 := List.countP_cons_of_pos rfl

@[simp] theorem turnsOf_look (i : ℕ) (as : List MarshalAct) :
    turnsOf (.look i :: as) = turnsOf as := List.countP_cons_of_neg (by simp [MarshalAct.isTurn])

theorem bytesPut_map_put (puts : List Bytes) :
    bytesPut (puts.map .put) = puts.flatten.length := by
  simp [bytesPut, List.length_flatten, Function.comp_def, MarshalAct.written]

theorem turnsOf_map_put (puts : List Bytes) : turnsOf (puts.map .put) = 0 := by
  simp [turnsOf, MarshalAct.isTurn]

theorem bytesPut_mono {as bs : List MarshalAct} (h : as <+: bs) : bytesPut as ≤ bytesPut bs := by
  obtain ⟨cs, rfl⟩ := h
  rw [bytesPut_append]
  exact Nat.le_add_right _ _

theorem within_nil (fs : List Field) : Within fs [] := fun as h => by
  rw [List.prefix_nil.1 h]
  exact Nat.zero_le _

/-- A turn that puts no more than its field holds. -/
theorem within_turn {f : Field} {fs : List Field} {acts : List MarshalAct} {puts : List Bytes}
    (fmt : Bytes) (i : ℕ) (hputs : puts.flatten.length ≤ f.size) (h : Within fs acts) :
    Within (f :: fs) (.turn fmt :: .look i :: puts.map .put ++ acts) := by
  intro as has
  have hbytes : bytesPut (.turn fmt :: .look i :: puts.map .put) = puts.flatten.length := by
    simp only [bytesPut_cons, MarshalAct.written, Nat.zero_add, bytesPut_map_put]
  have hturns : turnsOf (.turn fmt :: .look i :: puts.map .put) = 1 := by
    rw [turnsOf_turn, turnsOf_look, turnsOf_map_put]
  rcases List.prefix_or_prefix_of_prefix has (List.prefix_append _ _) with hpre | ⟨as', rfl⟩
  · rcases as with _ | ⟨a, as⟩
    · exact Nat.zero_le _
    obtain ⟨rfl, -⟩ := List.cons_prefix_cons.1 hpre
    have hle := bytesPut_mono hpre
    rw [turnsOf_turn, List.take_succ_cons, fieldsSize_cons]
    omega
  · have hle := h as' ((List.prefix_append_right_inj _).1 has)
    rw [bytesPut_append, turnsOf_append, hbytes, hturns, Nat.add_comm 1, List.take_succ_cons,
      fieldsSize_cons]
    exact Nat.add_le_add hputs hle

/-- Wherever the loop is stopped, it has put no more bytes than the fields it has come to hold. -/
theorem marshal_within : ∀ (fs : List Field) (i : ℕ),
    Within fs (marshal C W json (formatText C fs) i).calls
  | [], i => by
    rw [formatText, List.flatMap_nil, marshal]
    exact within_nil []
  | f :: fs, i => by
    obtain ⟨puts, hputs, hturn⟩ := marshal_field C W json f fs i
    rw [hturn, bind_ok]
    refine within_turn _ i hputs ?_
    split_ifs
    · exact marshal_within fs (i + 1)
    · exact within_nil fs

end Marshal

variable {C W}

theorem ahttpdBufferFromJson_after (buf : AuraBuffer) (json : Json) (fmt : Option Bytes) :
    ahttpdBufferFromJson C W buf json fmt = buf.after (marshalArgs C W json fmt) := by
  unfold ahttpdBufferFromJson marshalArgs
  split_ifs
  · exact (after_pure buf _).symm
  · cases fmt with
    | none => exact (after_pure buf _).symm
    | some fmt => exact fromJsonLoop_after C W json fmt 0 buf

theorem outcome_of_after {α : Type} {buf buf' : AuraBuffer} {x : Script MarshalAct Abort α} {a : α}
    (h : buf.after x = some (a, buf')) : x.outcome = .ok a := by
  obtain ⟨⟨buf₁, r⟩, hplay, hr⟩ := Option.bind_eq_some_iff.1 h
  obtain ⟨a', rfl, ha⟩ := Option.map_eq_some_iff.1 hr
  obtain ⟨rfl, -⟩ := Prod.mk.inj ha
  rcases hp : Script.play AuraBuffer.act (fun _ => false) buf x with e | r <;> rw [hp] at hplay
  · cases hplay
  · cases hplay
    exact (play_eq_some hp).2.1

/-- With an integer for every integer field and room for all of them the writing loop returns
zero. -/
theorem fromJson_zero {fs : List Field} {items : List Json} {buf : AuraBuffer}
    (hints : IntsGiven fs items) (hroom : buf.pos + fieldsSize fs ≤ buf.data.length) :
    ∃ buf', ahttpdBufferFromJson C W buf (.array items) (some (formatText C fs))
      = some (0, buf') := by
  have hput : (putFields W (.array items) fs 0).isSome := by
    rw [putFields_isSome]
    simpa [IntsGiven] using hints
  obtain ⟨bs, hbs⟩ := Option.isSome_iff_exists.1 hput
  have hmid : fieldsSize fs ≤ (buf.data.drop buf.pos).length := by
    rw [List.length_drop]
    omega
  have hloop := fromJsonLoop_fields C (W := W) (.array items) buf.extra fs 0
    (buf.data.take buf.pos) (buf.data.drop buf.pos) hmid
  rw [hbs] at hloop
  simp only [List.take_append_drop, List.length_take] at hloop
  rw [Nat.min_eq_left (by omega)] at hloop
  exact ⟨_, hloop⟩

/-- Each of the three scanners takes the tokens of a format one by one: the first names them, the
second makes an element for each as long as the buffer holds the integers, and the third, which
does what `marshalArgs` says, looks at one argument for each before it returns zero, as it does
where there is an integer for each of the integers and room for all. -/
theorem scanners_agree (C : UrpcCodes) (W : AuraWire) (ts : List Token) :
    ahttpdFormatToJson C (some (tokensText C ts)) = some (.array (ts.map Token.described))
      ∧ (∀ buf : AuraBuffer, buf.pos ≤ buf.data.length →
        if buf.pos + tokensFetched ts ≤ buf.data.length then
          ∃ items buf', ahttpdBufferToJson C W buf (some (tokensText C ts))
              = some (.array items, buf')
            ∧ List.Forall₂ Token.Shown ts items
        else ahttpdBufferToJson C W buf (some (tokensText C ts)) = none)
      ∧ (Token.buf ∉ ts → ∀ items : List Json,
        (∀ buf, ahttpdBufferFromJson C W buf (.array items) (some (tokensText C ts))
            = buf.after (marshalArgs C W (.array items) (some (tokensText C ts))))
          ∧ (∀ buf buf' : AuraBuffer,
            ahttpdBufferFromJson C W buf (.array items) (some (tokensText C ts)) = some (0, buf') →
            (marshalArgs C W (.array items) (some (tokensText C ts))).calls.filter (!·.isPut)
              = oneTurnEach C ts 0)
          ∧ ∀ (fs : List Field) (buf : AuraBuffer), ts = fs.map .field → IntsGiven fs items →
            buf.pos + fieldsSize fs ≤ buf.data.length →
            ∃ buf', ahttpdBufferFromJson C W buf (.array items) (some (tokensText C ts))
              = some (0, buf')) := by
  refine ⟨?_, fun buf hpos => ?_, fun hbuf items => ⟨fun buf => ?_, fun buf buf' h => ?_, ?_⟩⟩
  · rw [ahttpdFormatToJson, formatToJsonLoop_tokens]
    rfl
  · have hloop := toJsonLoop_tokens C W ts buf hpos
    simp only [ahttpdBufferToJson]
    split_ifs at hloop ⊢ with hroom
    · obtain ⟨items, buf', hloop, hshown⟩ := hloop
      exact ⟨items, buf', by rw [hloop]; rfl, hshown⟩
    · rw [hloop]
      rfl
  · exact ahttpdBufferFromJson_after buf (.array items) (some (tokensText C ts))
  · obtain ⟨fs, rfl⟩ := exists_fields hbuf
    rw [ahttpdBufferFromJson_after] at h
    have hout := outcome_of_after h
    rw [tokensText_fields] at hout ⊢
    exact marshal_turns C W _ fs 0 hout
  · rintro fs buf rfl hints hroom
    rw [tokensText_fields]
    exact fromJson_zero hints hroom

/-- Between two integers a block whose length is two of the letters of integers. -/
def digitTokens : List Token :=
  [.field (.int .u8), .field (.bin 12 (by decide)), .field (.int .u16)]

theorem scanners_agree_digits :
    tokensText .digits digitTokens = lit "1s12.2"
      ∧ ahttpdFormatToJson .digits (some (lit "1s12.2"))
        = some (.array (digitTokens.map Token.described))
      ∧ (∃ items buf', ahttpdBufferToJson .digits .littleEndian ⟨[1, 2, 0], [], 0⟩
            (some (lit "1s12.2")) = some (.array items, buf')
          ∧ List.Forall₂ Token.Shown digitTokens items)
      ∧ ∃ buf', ahttpdBufferFromJson .digits .littleEndian ⟨List.replicate 15 0, [], 0⟩
            (.array [.int 7, .null, .int 8]) (some (lit "1s12.2")) = some (0, buf')
          ∧ AuraBuffer.after ⟨List.replicate 15 0, [], 0⟩ (marshalArgs .digits .littleEndian
            (.array [.int 7, .null, .int 8]) (some (lit "1s12.2"))) = some (0, buf')
          ∧ (marshalArgs .digits .littleEndian (.array [.int 7, .null, .int 8])
            (some (lit "1s12.2"))).calls.filter (!·.isPut) = oneTurnEach .digits digitTokens 0 := by
  have htext : tokensText .digits digitTokens = lit "1s12.2" := by decide +kernel
  obtain ⟨hformat, hto, hfrom⟩ := scanners_agree .digits .littleEndian digitTokens
  rw [htext] at hformat hto hfrom
  refine ⟨htext, hformat, ?_, ?_⟩
  · have h := hto ⟨[1, 2, 0], [], 0⟩ (by decide)
    rwa [if_pos (by decide)] at h
  · obtain ⟨hafter, hlooked, hzero⟩ := hfrom (by decide) [.int 7, .null, .int 8]
    have hints : IntsGiven [.int .u8, .bin 12 (by decide), .int .u16]
        [.int 7, .null, .int 8] := by
      rintro (_ | _ | _ | k) t ht
      · exact ⟨7, rfl⟩
      · cases ht
      · exact ⟨8, rfl⟩
      · cases ht
    obtain ⟨buf', h⟩ := hzero _ ⟨List.replicate 15 0, [], 0⟩ rfl hints (by decide)
    exact ⟨buf', h, (hafter _).symm.trans h, hlooked _ _ h⟩

/-- The acts of a loop that has room for all it puts. -/
theorem acts_of_room : ∀ (as : List MarshalAct) (buf : AuraBuffer),
    buf.pos + bytesPut as ≤ buf.data.length →
      ∃ buf', buf.acts as = .ok buf' ∧ buf'.pos = buf.pos + bytesPut as
        ∧ buf'.data.length = buf.data.length
  | [], buf, _ => ⟨buf, rfl, rfl, rfl⟩
  | a :: as, buf, h => by
    rw [bytesPut_cons] at h
    have hact : ∃ buf₁, buf.act a = .ok buf₁ ∧ buf₁.pos = buf.pos + a.written
        ∧ buf₁.data.length = buf.data.length := by
      cases a with
      | put bs =>
        have hroom : buf.pos + bs.length ≤ buf.data.length := by
          simp only [MarshalAct.written] at h
          omega
        refine ⟨_, by rw [AuraBuffer.act, AuraBuffer.putBytes, if_pos hroom], rfl, ?_⟩
        simp only [List.length_append, List.length_take, List.length_drop]
        omega
      | turn fmt => exact ⟨buf, rfl, rfl, rfl⟩
      | look i => exact ⟨buf, rfl, rfl, rfl⟩
    obtain ⟨buf₁, hact, hpos, hlen⟩ := hact
    obtain ⟨buf', hacts, hpos', hlen'⟩ := acts_of_room as buf₁ (by omega)
    refine ⟨buf', ?_, by rw [hpos', hpos, bytesPut_cons, Nat.add_assoc], hlen'.trans hlen⟩
    rw [AuraBuffer.acts, replay_cons, hact]
    exact hacts

theorem after_of_acts {α : Type} {buf buf' : AuraBuffer} {x : Script MarshalAct Abort α} {a : α}
    (h : buf.acts x.calls = .ok buf') (hx : x.outcome = .ok a) : buf.after x = some (a, buf') := by
  rw [AuraBuffer.after, play_of_replay hx h rfl]
  rfl

theorem fieldsSize_take_le (fs : List Field) (k : ℕ) : fieldsSize (fs.take k) ≤ fieldsSize fs := by
  have : fieldsSize fs = fieldsSize (fs.take k) + fieldsSize (fs.drop k) := by
    rw [fieldsSize, fieldsSize, fieldsSize, ← List.sum_append, ← List.map_append,
      List.take_append_drop]
  omega

theorem marshalArgs_within (C : UrpcCodes) (W : AuraWire) (fs : List Field) (json : Json) :
    Within fs (marshalArgs C W json (some (formatText C fs))).calls := by
  unfold marshalArgs
  split_ifs
  · exact within_nil fs
  · exact marshal_within C W json fs 0

theorem marshalArgs_outcome (C : UrpcCodes) (W : AuraWire) (fs : List Field) (json : Json) :
    ∃ ret, (marshalArgs C W json (some (formatText C fs))).outcome = .ok ret := by
  unfold marshalArgs
  split_ifs
  · exact ⟨-1, rfl⟩
  · rcases marshal_outcome C W json fs 0 with h | h
    · exact ⟨0, h⟩
    · exact ⟨-1, h⟩

/-- At every point of the marshalling no more bytes are put than the tokens scanned so far hold, so
a buffer of the format's size is never too short, and the request goes on. -/
theorem marshalling_within (C : UrpcCodes) (W : AuraWire) (fs : List Field) (o : AuraObject)
    (args : Json) (hfmt : o.argFmt = some (formatText C fs)) (hlen : o.arglen = fieldsSize fs) :
    (∀ as, as <+: (marshalArgs C W args o.argFmt).calls →
        bytesPut as ≤ fieldsSize (fs.take (turnsOf as))
          ∧ ∃ buf, AuraBuffer.acts { data := List.replicate o.arglen 0 } as = .ok buf
            ∧ buf.pos = bytesPut as ∧ buf.pos ≤ o.arglen ∧ buf.data.length = o.arglen)
      ∧ (∃ ret buf, ahttpdBufferFromJson C W { data := List.replicate o.arglen 0 } args o.argFmt
        = some (ret, buf))
      ∧ ∀ (mountpoint : Bytes) (s : Nodefs) (q : Request) (isAsync started : Bool),
        ∃ s', ahttpdCallCreate C W mountpoint s q o args isAsync started = some s' := by
  rw [hfmt]
  have hpoint : ∀ as, as <+: (marshalArgs C W args (some (formatText C fs))).calls →
      bytesPut as ≤ fieldsSize (fs.take (turnsOf as))
        ∧ ∃ buf, AuraBuffer.acts { data := List.replicate o.arglen 0 } as = .ok buf
          ∧ buf.pos = bytesPut as ∧ buf.pos ≤ o.arglen ∧ buf.data.length = o.arglen := by
    intro as has
    have hle := marshalArgs_within C W fs args as has
    have htake := fieldsSize_take_le fs (turnsOf as)
    obtain ⟨buf, hacts, hpos, hdata⟩ :=
      acts_of_room as { data := List.replicate o.arglen 0 } (by
        show 0 + bytesPut as ≤ _
        rw [List.length_replicate]
        omega)
    rw [Nat.zero_add] at hpos
    rw [List.length_replicate] at hdata
    exact ⟨hle, buf, hacts, hpos, by omega, hdata⟩
  have hret : ∃ ret buf, ahttpdBufferFromJson C W { data := List.replicate o.arglen 0 } args
      (some (formatText C fs)) = some (ret, buf) := by
    obtain ⟨-, buf, hacts, -⟩ := hpoint _ (List.prefix_refl _)
    obtain ⟨ret, hout⟩ := marshalArgs_outcome C W fs args
    exact ⟨ret, buf, by rw [ahttpdBufferFromJson_after, after_of_acts hacts hout]⟩
  refine ⟨hpoint, hret, fun mountpoint s q isAsync started => ?_⟩
  obtain ⟨ret, buf, hret⟩ := hret
  unfold ahttpdCallCreate
  simp only [hfmt, hret, Option.bind_eq_bind, Option.bind_some]
  split_ifs <;> exact ⟨_, rfl⟩

/-- A string longer than its block, and then an argument that is refused. -/
theorem marshalling_within_refused :
    ∃ ret buf, ahttpdBufferFromJson .digits .littleEndian { data := List.replicate 5 0 }
      (.array [.string (lit "abcdefgh"), .null]) (some (lit "s4.1")) = some (ret, buf) := by
  have htext : formatText .digits [.bin 4 (by decide), .int .u8] = lit "s4.1" := by
    decide +kernel
  exact (marshalling_within .digits .littleEndian [.bin 4 (by decide), .int .u8]
    { id := 0, name := [], argFmt := some (lit "s4.1"), retFmt := none, arglen := 5 }
    (.array [.string (lit "abcdefgh"), .null]) (by rw [htext]) (by decide)).2.1

end AuraHttpd
