import ActixServerAlt.H1.Wire

/-!
# Framing and disposition after the head

The head declares how the body is delimited, the body encoder selected after it frames the
body, and the head records the connection's disposition from its `Connection` values. Each is
stated here against what an RFC 7230 reader finds in the bytes of the head.

* `framingFieldsOf`, `Declares`: the framing fields a reader finds, and the one field a size
  hint calls for;
* `framing_fields_rule`: the framing field the head carries, for every accepted status;
* `encoder_agrees`: the encoder `ResponseBody::encoder` selects after the head, against what
  the head declares;
* `disposition_after_head`: the disposition the head leaves, and the flags it keeps.
-/

namespace ActixServerAlt.H1

open Rfc7230

/-- The framing fields among the fields a reader found. -/
def framingFieldsOf (fs : List (Bytes × Bytes)) : List (Bytes × Bytes) :=
  fs.filter fun f => f.1 == ascii "content-length" || f.1 == ascii "transfer-encoding"

/-- The fields `fs` carry the framing field a size hint calls for, and no other: none for
`None`, `transfer-encoding: chunked` for `Stream`, and `content-length: d` with `d` the decimal
form of `n` for `Sized(n)`. -/
def Declares (fs : List (Bytes × Bytes)) : ResponseBodySize → Prop
  | .none => framingFieldsOf fs = []
  | .stream => framingFieldsOf fs = [(ascii "transfer-encoding", ascii "chunked")]
  | .sized n =>
    ∃ d, framingFieldsOf fs = [(ascii "content-length", d)] ∧ readDecimal d = some n.toNat

/-- The map holds no `content-length` and no `transfer-encoding` field. -/
def NoFraming (m : HeaderMap) : Prop :=
  ∀ f ∈ m.fields, f.1 ≠ .contentLength ∧ f.1 ≠ .transferEncoding

instance (m : HeaderMap) : Decidable (NoFraming m) :=
  inferInstanceAs (Decidable (∀ f ∈ m.fields, f.1 ≠ .contentLength ∧ f.1 ≠ .transferEncoding))

/-! ### The framing fields of a head -/

theorem skipsLen_of_noFraming {m : HeaderMap} (h : NoFraming m) (skipLen : Bool) :
    skipsLen skipLen m = skipLen := by
  have : (m.fields.any fun f => decide (f.1 = .contentLength) || decide (f.1 = .transferEncoding))
      = false := List.any_eq_false.mpr fun f hf => by simp [(h f hf).1, (h f hf).2]
  simp [skipsLen, this]

/-- `skip_len` is set exactly for a `2xx` answer to `CONNECT`. -/
theorem skipLenOf_ok {ctx : Context} {status : StatusCode} {skipLen : Bool}
    (h : skipLenOf ctx status = .ok skipLen) :
    skipLen = (ctx.isConnectMethod && status.isSuccess) := by
  unfold skipLenOf at h
  split_ifs at h with h1 h2 h3 <;> cases h
  · subst h1; cases ctx.isConnectMethod <;> rfl
  · exact h2.symm
  · simpa using h2

theorem dropOws_of_not_ows {s : Bytes} (h : ∀ c ∈ s, isOws c = false) : dropOws s = s := by
  have hd : ∀ t : Bytes, (∀ c ∈ t, isOws c = false) → t.dropWhile isOws = t := by
    intro t ht
    cases t with
    | nil => rfl
    | cons c t => simp [List.dropWhile_cons, ht c (List.mem_cons_self _ _)]
  rw [dropOws, hd s h, hd s.reverse (by simpa using h), List.reverse_reverse]

theorem framingFieldsOf_synth (force skipLen skipDate : Bool) (size : ResponseBodySize)
    (date : HeaderValue) :
    framingFieldsOf ((synthFields force skipLen skipDate size date).map
        fun f => (f.1.bytes, dropOws f.2)) =
      if skipLen then [] else (framingField size).map fun f => (f.1.bytes, f.2) := by
  have hdec : ∀ n, dropOws (decimal n) = decimal n := fun n => dropOws_of_not_ows fun c hc => by
    obtain ⟨d, hd, rfl⟩ := List.mem_map.mp hc
    have hd : d < 16 := by have := lt_of_mem_radix (by omega : 2 ≤ 10) hd; omega
    simp [isOws, digitByte_ne hd 32 (by decide), digitByte_ne hd 9 (by decide)]
  have hf : framingFieldsOf ((framingField size).map fun f => (f.1.bytes, dropOws f.2)) =
      (framingField size).map fun f => (f.1.bytes, f.2) := by
    cases size with
    | none => rfl
    | stream => rfl
    | sized n =>
      show framingFieldsOf [(HeaderName.contentLength.bytes, dropOws (decimal n.toNat))] = _
      rw [hdec]; rfl
  have hc : framingFieldsOf [((HeaderName.connection).bytes, dropOws (ascii "close"))] = [] := rfl
  have hd : framingFieldsOf [((HeaderName.date).bytes, dropOws date.bytes)] = [] := rfl
  unfold synthFields
  cases force <;> cases skipLen <;> cases skipDate <;>
    simp only [framingFieldsOf, List.map_append, List.filter_append] at hc hd hf ⊢ <;>
    simp [hc, hd, hf]

/-- **The framing fields a reader finds in the head**, for a map holding none. -/
theorem framingFieldsOf_head {parts : Parts} (hnf : NoFraming parts.headers) (ctx : Context)
    (skipLen : Bool) (size : ResponseBodySize) :
    framingFieldsOf ((headFields ctx parts skipLen size).map fun f => (f.1.bytes, dropOws f.2)) =
      if skipLen then [] else (framingField size).map fun f => (f.1.bytes, f.2) := by
  have hw : framingFieldsOf ((writtenFields ctx.isForceClose parts.headers.fields).map
      fun f => (f.1.bytes, dropOws f.2.bytes)) = [] := by
    simp only [framingFieldsOf, List.filter_eq_nil_iff, List.mem_map, Bool.or_eq_true, beq_iff_eq]
    rintro _ ⟨f, hf, rfl⟩ (h | h)
    · exact (hnf f (List.mem_filter.mp hf).1).1 (HeaderName.eq_of_bytes h)
    · exact (hnf f (List.mem_filter.mp hf).1).2 (HeaderName.eq_of_bytes h)
  rw [headFields, skipsLen_of_noFraming hnf, List.map_append, List.map_map]
  simp only [framingFieldsOf, List.filter_append] at hw ⊢
  rw [Function.comp_def, hw, List.nil_append]
  exact framingFieldsOf_synth _ _ _ _ _

theorem declares_framingField (fs : List (Bytes × Bytes)) (size : ResponseBodySize)
    (h : framingFieldsOf fs = (framingField size).map fun f => (f.1.bytes, f.2)) :
    Declares fs size := by
  cases size with
  | none => exact h
  | stream => exact h
  | sized n => exact ⟨_, h, readDecimal_decimal _⟩

/-- What a reader finds in the head a successful `encode_head` queued. -/
theorem encodeHead_reads {ctx ctx' : Context} {parts : Parts} {size : ResponseBodySize}
    {buf buf' : WriteBuf} (h : ctx.encodeHead parts size buf = .ok () (ctx', buf')) :
    ∃ skipLen, skipLenOf ctx parts.status = .ok skipLen ∧ ctx' = ctxAfterHead ctx parts.headers ∧
      buf.Flushes (headOf ctx parts skipLen size) buf' ∧
      parseHead (headOf ctx parts skipLen size) = some (parts.status.code,
        (headFields ctx parts skipLen size).map (fun f => (f.1.bytes, dropOws f.2)), []) := by
  obtain ⟨skipLen, hs, -, -, hc, hf⟩ := encodeHead_ok h
  refine ⟨skipLen, hs, hc, hf, ?_⟩
  simpa using parseHead_headOf ctx parts skipLen size []

/-! ### The framing field rule -/

/-- **The framing field of the head.** For every status `encode_head` accepts and every map
holding no framing field, the head a reader finds in the buffer carries no framing field for a
`2xx` answer to `CONNECT`, and otherwise exactly the one the size hint calls for. The status
`101` is no exception. -/
theorem framing_fields_rule {ctx ctx' : Context} {parts : Parts} {size : ResponseBodySize}
    {buf buf' : WriteBuf} (hnf : NoFraming parts.headers)
    (h : ctx.encodeHead parts size buf = .ok () (ctx', buf')) :
    ∃ head fs, buf.Flushes head buf' ∧ parseHead head = some (parts.status.code, fs, []) ∧
      if ctx.isConnectMethod && parts.status.isSuccess then framingFieldsOf fs = []
      else Declares fs size := by
  obtain ⟨skipLen, hs, -, hf, hp⟩ := encodeHead_reads h
  refine ⟨_, _, hf, hp, ?_⟩
  have hff := framingFieldsOf_head hnf ctx skipLen size
  rw [← skipLenOf_ok hs]
  cases skipLen with
  | true => simpa using hff
  | false => exact declares_framingField _ _ (by simpa using hff)

/-- `encode_head` puts a framing field on a `101` response: `content-length: 5` here. -/
theorem switching_protocols_declares_length : ∃ buf',
    (Context.new ⟨ascii "Sun, 06 Nov 1994 08:49:37 GMT", by decide⟩).encodeHead
      ⟨.switchingProtocols, .http11, .empty⟩ (.sized 5) (.flat []) =
      .ok () ({ Context.new ⟨ascii "Sun, 06 Nov 1994 08:49:37 GMT", by decide⟩ with
        headerCache := some .empty }, buf') ∧
    buf'.queued = ascii ("HTTP/1.1 101 Switching Protocols\r\ncontent-length: 5\r\n" ++
      "date: Sun, 06 Nov 1994 08:49:37 GMT\r\n\r\n") := by
  obtain ⟨b, hb, hf⟩ := @encodeHead_eq_ok
    (Context.new ⟨ascii "Sun, 06 Nov 1994 08:49:37 GMT", by decide⟩)
    ⟨.switchingProtocols, .http11, .empty⟩ false rfl (fun _ h => by simp [HeaderMap.empty] at h)
    (fun _ h => by simp [HeaderMap.fields, HeaderMap.empty] at h) (.sized 5) (.flat [])
  have h5 : decimal (UInt64.toNat 5) = ascii "5" := by
    rw [show UInt64.toNat 5 = 5 from rfl, decimal, radix, if_neg (by omega),
      Nat.digits_of_lt 10 5 (by omega) (by omega)]
    rfl
  refine ⟨b, hb, ?_⟩
  rw [hf.1]
  simp only [headOf, headTail, framingLine, h5]
  rfl

/-- The rule at a `2xx` answer to `CONNECT` with a sized body: no framing field. -/
theorem framing_fields_rule_connect : ∃ ctx' buf',
    ((Context.new ⟨ascii "Sun, 06 Nov 1994 08:49:37 GMT", by decide⟩).setConnectMethod).encodeHead
      ⟨.ok, .http11, .empty⟩ (.sized 5) (.flat []) = .ok () (ctx', buf') ∧
    ∃ head fs, (WriteBuf.flat []).Flushes head buf' ∧
      parseHead head = some (StatusCode.ok.code, fs, []) ∧
      if ((Context.new ⟨ascii "Sun, 06 Nov 1994 08:49:37 GMT", by decide⟩).setConnectMethod
          ).isConnectMethod && StatusCode.ok.isSuccess then framingFieldsOf fs = []
      else Declares fs (.sized 5) := by
  obtain ⟨b, hb, -⟩ := @encodeHead_eq_ok
    ((Context.new ⟨ascii "Sun, 06 Nov 1994 08:49:37 GMT", by decide⟩).setConnectMethod)
    ⟨.ok, .http11, .empty⟩ true (by rfl) (fun _ h => by simp [HeaderMap.empty] at h)
    (fun _ h => by simp [HeaderMap.fields, HeaderMap.empty] at h) (.sized 5) (.flat [])
  exact ⟨_, b, hb, framing_fields_rule (fun _ h => by simp [HeaderMap.fields, HeaderMap.empty] at h) hb⟩

/-! ### The encoder against the head -/

theorem mem_framingFieldsOf {f : Bytes × Bytes} {fs : List (Bytes × Bytes)} :
    f ∈ framingFieldsOf fs ↔
      f ∈ fs ∧ (f.1 = ascii "content-length" ∨ f.1 = ascii "transfer-encoding") := by
  simp [framingFieldsOf]

/-- **The encoder against the head.** After a successful `encode_head` on a map holding no
framing field, the encoder `ResponseBody::encoder` selects is `Length(n)` whenever the head
declares `content-length: d` with `d` the decimal form of `n`; and unless the response is a `2xx`
answer to `CONNECT` or the disposition after the head is `Upgrade`, it frames chunks exactly
when the head declares `transfer-encoding: chunked`. -/
theorem encoder_agrees {ctx ctx' : Context} {parts : Parts} {body : ResponseBody}
    {buf buf' : WriteBuf} (hnf : NoFraming parts.headers)
    (h : ctx.encodeHead parts body.size buf = .ok () (ctx', buf')) :
    ∃ head fs, buf.Flushes head buf' ∧ parseHead head = some (parts.status.code, fs, []) ∧
      (∀ d, (ascii "content-length", d) ∈ fs →
        ∃ n : UInt64, readDecimal d = some n.toNat ∧ body.encoder ctx'.ctype = .length n) ∧
      (¬ (ctx.isConnectMethod ∧ parts.status.isSuccess) → ctx'.ctype ≠ .upgrade →
        ((body.encoder ctx'.ctype).kind = .encodeChunked false ↔
          (ascii "transfer-encoding", ascii "chunked") ∈ fs)) := by
  obtain ⟨skipLen, hs, rfl, hf, hp⟩ := encodeHead_reads h
  have key := fun g => (framingFieldsOf_head hnf ctx skipLen body.size ▸
    (@mem_framingFieldsOf g _).symm)
  refine ⟨_, _, hf, hp, fun d hd => ?_, fun hc hu => ?_⟩
  · have hm := (key _).mp ⟨hd, .inl rfl⟩
    cases skipLen
    · rw [if_neg Bool.false_ne_true] at hm
      cases body with
      | none => cases hm
      | bytes b =>
        obtain rfl := (Prod.mk.inj (List.mem_singleton.mp hm)).2
        exact ⟨_, readDecimal_decimal _, rfl⟩
      | stream cs => exact absurd (Prod.mk.inj (List.mem_singleton.mp hm)).1 (by decide)
    · cases hm
  · have hsk : skipLen = false := by rw [skipLenOf_ok hs]; simpa using hc
    subst hsk
    have hte := key (ascii "transfer-encoding", ascii "chunked")
    rw [if_neg Bool.false_ne_true] at hte
    cases body with
    | none =>
      exact iff_of_false (by simp [ResponseBody.encoder, TransferEncoding.eof])
        fun h => List.not_mem_nil _ (hte.mp ⟨h, .inr rfl⟩)
    | bytes b =>
      have hne : ascii "transfer-encoding" ≠ HeaderName.contentLength.bytes := by decide
      exact iff_of_false (by simp [ResponseBody.encoder, TransferEncoding.length]) fun h =>
        absurd (Prod.mk.inj (List.mem_singleton.mp (hte.mp ⟨h, .inr rfl⟩))).1 hne
    | stream cs =>
      exact iff_of_true (by simp [ResponseBody.encoder, hu, TransferEncoding.chunked])
        (hte.mpr (List.mem_singleton_self _)).1

/-- The encoder after a `200` head with a five-byte body. -/
theorem encoder_agrees_sized : ∃ ctx' buf',
    (Context.new ⟨ascii "Sun, 06 Nov 1994 08:49:37 GMT", by decide⟩).encodeHead
      ⟨.ok, .http11, .empty⟩ (ResponseBody.bytes (ascii "hello")).size (.flat []) =
      .ok () (ctx', buf') ∧
    ∃ head fs, (WriteBuf.flat []).Flushes head buf' ∧
      parseHead head = some (StatusCode.ok.code, fs, []) ∧
      (∀ d, (ascii "content-length", d) ∈ fs → ∃ n : UInt64, readDecimal d = some n.toNat ∧
        (ResponseBody.bytes (ascii "hello")).encoder ctx'.ctype = .length n) ∧
      (¬ ((Context.new ⟨ascii "Sun, 06 Nov 1994 08:49:37 GMT", by decide⟩).isConnectMethod ∧
          StatusCode.ok.isSuccess) → ctx'.ctype ≠ .upgrade →
        (((ResponseBody.bytes (ascii "hello")).encoder ctx'.ctype).kind = .encodeChunked false ↔
          (ascii "transfer-encoding", ascii "chunked") ∈ fs)) := by
  obtain ⟨b, hb, -⟩ := @encodeHead_eq_ok (Context.new ⟨ascii "Sun, 06 Nov 1994 08:49:37 GMT", by decide⟩)
    ⟨.ok, .http11, .empty⟩ false (by rfl) (fun _ h => by simp [HeaderMap.empty] at h)
    (fun _ h => by simp [HeaderMap.fields, HeaderMap.empty] at h)
    (ResponseBody.bytes (ascii "hello")).size (.flat [])
  exact ⟨_, b, hb, encoder_agrees (fun _ h => by simp [HeaderMap.fields, HeaderMap.empty] at h) hb⟩

/-- A streamed body under a `2xx` answer to `CONNECT` gets the chunk framing encoder while the
head declares no framing; under `Connection: upgrade` it gets the raw encoder while the head
declares `transfer-encoding: chunked`. -/
theorem connect_and_upgrade_streams :
    ((Context.new ⟨ascii "Sun, 06 Nov 1994 08:49:37 GMT", by decide⟩).setConnectMethod).encodeHead
        ⟨.ok, .http11, .empty⟩ .stream (.flat []) =
      .ok () ({ (Context.new ⟨ascii "Sun, 06 Nov 1994 08:49:37 GMT", by decide⟩).setConnectMethod
          with headerCache := some .empty },
        .flat (ascii "HTTP/1.1 200 OK\r\ndate: Sun, 06 Nov 1994 08:49:37 GMT\r\n\r\n")) ∧
    (ResponseBody.stream [ascii "data"]).encoder .init = .chunked ∧
    (Context.new ⟨ascii "Sun, 06 Nov 1994 08:49:37 GMT", by decide⟩).encodeHead
        ⟨.ok, .http11, ⟨[(.connection, ⟨ascii "upgrade", by decide⟩, [])], by decide⟩⟩ .stream
        (.flat []) =
      .ok () ({ Context.new ⟨ascii "Sun, 06 Nov 1994 08:49:37 GMT", by decide⟩ with
          ctype := .upgrade, headerCache := some .empty },
        .flat (ascii ("HTTP/1.1 200 OK\r\nconnection: upgrade\r\ntransfer-encoding: chunked\r\n" ++
          "date: Sun, 06 Nov 1994 08:49:37 GMT\r\n\r\n"))) ∧
    (ResponseBody.stream [ascii "data"]).encoder .upgrade = .plainChunked :=
  ⟨rfl, rfl, rfl, rfl⟩

/-! ### The disposition after the head -/

/-- The disposition the head leaves is the last token recognised among the `Connection` values
it wrote: none are written under force-close. -/
theorem ctypeAfter_eq_written (ctx : Context) (m : HeaderMap) :
    ctypeAfter ctx m = lastOr ctx.ctype
      ((connectionValues (writtenFields ctx.isForceClose m.fields)).flatMap valueCtypes) := by
  unfold ctypeAfter
  cases h : ctx.isForceClose <;> simp [writtenFields, connectionValues, List.filter_filter]

/-- **The disposition after the head.** A successful `encode_head` keeps the `EXPECT`,
`CONNECT` and `FORCE_CLOSE` flags, and leaves the disposition the last recognised token
(`close`, `keep-alive` or `upgrade`, trimmed, in any case) among the `Connection` values it
wrote, or the disposition it found when there is none. -/
theorem disposition_after_head {ctx ctx' : Context} {parts : Parts} {size : ResponseBodySize}
    {buf buf' : WriteBuf} (h : ctx.encodeHead parts size buf = .ok () (ctx', buf')) :
    ctx'.state = ctx.state ∧ ctx'.ctype = lastOr ctx.ctype
      ((connectionValues (writtenFields ctx.isForceClose parts.headers.fields)).flatMap
        valueCtypes) := by
  obtain ⟨-, -, -, -, rfl, -⟩ := encodeHead_ok h
  exact ⟨rfl, ctypeAfter_eq_written ctx parts.headers⟩

/-- `Connection: keep-alive, Upgrade` leaves the disposition `Upgrade`. -/
theorem disposition_keep_alive_upgrade : ∃ ctx' buf',
    (Context.new ⟨ascii "Sun, 06 Nov 1994 08:49:37 GMT", by decide⟩).encodeHead
      ⟨.ok, .http11, ⟨[(.connection, ⟨ascii "keep-alive, Upgrade", by decide⟩, [])], by decide⟩⟩
      .none (.flat []) = .ok () (ctx', buf') ∧
    ctx'.state = (Context.new ⟨ascii "Sun, 06 Nov 1994 08:49:37 GMT", by decide⟩).state ∧
    ctx'.ctype = .upgrade := by
  obtain ⟨b, hb, -⟩ := @encodeHead_eq_ok (Context.new ⟨ascii "Sun, 06 Nov 1994 08:49:37 GMT", by decide⟩)
    ⟨.ok, .http11, ⟨[(.connection, ⟨ascii "keep-alive, Upgrade", by decide⟩, [])], by decide⟩⟩
    false (by rfl) (by decide) (by decide) .none (.flat [])
  exact ⟨_, b, hb, (disposition_after_head hb).1, (disposition_after_head hb).2.trans (by rfl)⟩

/-- `Connection: close, keep-alive` is written to the head, and leaves the disposition
`KeepAlive`. -/
theorem close_then_keep_alive :
    (Context.new ⟨ascii "Sun, 06 Nov 1994 08:49:37 GMT", by decide⟩).encodeHead
      ⟨.ok, .http11, ⟨[(.connection, ⟨ascii "close, keep-alive", by decide⟩, [])], by decide⟩⟩
      .none (.flat []) =
      .ok () ({ Context.new ⟨ascii "Sun, 06 Nov 1994 08:49:37 GMT", by decide⟩ with
          ctype := .keepAlive, headerCache := some .empty },
        .flat (ascii ("HTTP/1.1 200 OK\r\nconnection: close, keep-alive\r\n" ++
          "date: Sun, 06 Nov 1994 08:49:37 GMT\r\n\r\n"))) := by
  rfl

end ActixServerAlt.H1
