import ActixServerAlt.H1.Length
import ActixServerAlt.Rfc7230

/-!
# Chunked framing

A streamed body is framed by `TransferEncoding::chunked()`: every non-empty chunk becomes its
hex length line, the bytes and CRLF, and the first empty chunk or `encode_eof` writes the last
chunk `0\r\n\r\n`, after which the encoder writes nothing. `chunked_framing` states this for
every sequence of calls, in any order and number, and reads the output back with the RFC 7230
chunked decoder of `Rfc7230`. `passThrough_framing` states what `eof()` and `plain_chunked()`, the
encoder of an upgraded stream, do instead: queue every chunk raw and never end.
-/

namespace ActixServerAlt.H1

open TransferEncoding Rfc7230

/-- The call ends a chunked body: an empty chunk, or `encode_eof`. -/
def Call.ends : Call → Bool
  | .encode c => c.isEmpty
  | .encodeEof => true

/-- The chunk a call passes, if any. -/
def Call.chunk : Call → Bytes
  | .encode c => c
  | .encodeEof => []

/-- The chunks passed before the first call that ends the body. -/
def chunksBeforeEnd (calls : List Call) : List Bytes :=
  (calls.takeWhile fun c => !c.ends).map Call.chunk

/-- The reply of a chunked encoder to a call, given whether the body ended before it. -/
def chunkedReply (ended : Bool) : Call → Reply
  | .encode c => .encode (.ok (ended || c.isEmpty))
  | .encodeEof => .encodeEof (.ok ())

/-- The replies of a chunked encoder to a sequence of calls. -/
def chunkedReplies (ended : Bool) : List Call → List Reply
  | [] => []
  | c :: cs => chunkedReply ended c :: chunkedReplies (ended || c.ends) cs

/-- What the calls queue on a chunked encoder that has not ended the body. -/
def chunkedOutput (calls : List Call) : Bytes :=
  (chunksBeforeEnd calls).flatMap chunkFrame ++ if calls.any Call.ends then lastChunk else []

/-- A chunked encoder that ended the body writes nothing more. -/
theorem run_chunked_ended (buf : WriteBuf) (calls : List Call) :
    (⟨.encodeChunked true⟩ : TransferEncoding).run buf calls =
      some (chunkedReplies true calls, ⟨.encodeChunked true⟩, buf) := by
  induction calls with
  | nil => rfl
  | cons c cs ih =>
    cases c with
    | encode msg => rw [run_cons_of_step (step_encode (encode_chunked_done msg buf)), ih]; rfl
    | encodeEof =>
      rw [run_cons_of_step (step_encodeEof (by rw [encodeEof_chunked_done]; rfl)), ih]; rfl

/-- The calls on a chunked encoder that has not ended the body. -/
theorem run_chunked (calls : List Call) (buf : WriteBuf) :
    ∃ buf', chunked.run buf calls =
        some (chunkedReplies false calls, ⟨.encodeChunked (calls.any Call.ends)⟩, buf') ∧
      buf.Appends (chunkedOutput calls) buf' := by
  induction calls generalizing buf with
  | nil => exact ⟨buf, rfl, by simpa [chunkedOutput, chunksBeforeEnd] using WriteBuf.Appends.refl buf⟩
  | cons c cs ih =>
    cases c with
    | encodeEof =>
      obtain ⟨b, hb, ha⟩ := encodeEof_chunked buf
      refine ⟨b, ?_, by simpa [chunkedOutput, chunksBeforeEnd, Call.ends] using ha⟩
      rw [run_cons_of_step (step_encodeEof (by rw [hb]; rfl)), run_chunked_ended]; rfl
    | encode msg =>
      by_cases hm : msg = []
      · subst hm
        obtain ⟨b, hb, ha⟩ := encode_chunked_last buf
        refine ⟨b, ?_, by simpa [chunkedOutput, chunksBeforeEnd, Call.ends] using ha⟩
        rw [run_cons_of_step (step_encode hb), run_chunked_ended]; rfl
      · obtain ⟨b, hb, ha⟩ := encode_chunked_frame hm buf
        obtain ⟨b', hb', ha'⟩ := ih b
        have he : (Call.encode msg).ends = false := by simpa [Call.ends] using hm
        refine ⟨b', ?_, ?_⟩
        · rw [run_cons_of_step (step_encode hb), hb']
          simp [chunkedReplies, chunkedReply, he, List.isEmpty_iff, hm]
        · have := ha.trans ha'
          simpa [chunkedOutput, chunksBeforeEnd, he, Call.chunk, List.append_assoc] using this

/-- The decoder reads the frames of non-empty chunks and goes on after them. -/
theorem decodeChunked_frames (cs : List Bytes) (hcs : ∀ c ∈ cs, c ≠ []) (fuel : Nat)
    (acc tail : Bytes) :
    decodeChunked (fuel + cs.length) acc (cs.flatMap chunkFrame ++ tail) =
      decodeChunked fuel (acc ++ cs.flatten) tail := by
  induction cs generalizing acc with
  | nil => simp
  | cons c cs ih =>
    rw [List.length_cons, ← Nat.add_assoc, List.flatMap_cons, List.append_assoc]
    rw [show chunkFrame c ++ (cs.flatMap chunkFrame ++ tail) =
      upperHex c.length ++ crlf ++ c ++ crlf ++ (cs.flatMap chunkFrame ++ tail) by
        simp [chunkFrame]]
    rw [decodeChunked_chunk (hcs c (List.mem_cons_self _ _)),
      ih (fun d hd => hcs d (List.mem_cons_of_mem _ hd))]
    simp

theorem chunksBeforeEnd_ne_nil (calls : List Call) : ∀ c ∈ chunksBeforeEnd calls, c ≠ [] := by
  intro c hc
  obtain ⟨k, hk, rfl⟩ := List.mem_map.mp hc
  have := List.mem_takeWhile_imp hk
  cases k <;> simp_all [Call.ends, Call.chunk]

theorem length_le_flatMap_chunkFrame (cs : List Bytes) : cs.length ≤ (cs.flatMap chunkFrame).length := by
  induction cs with
  | nil => simp
  | cons c cs ih =>
    have : 2 ≤ (chunkFrame c).length := by simp [chunkFrame]; omega
    simp only [List.flatMap_cons, List.length_append, List.length_cons]; omega

/-- The RFC 7230 chunked decoder reads an ended output to its last byte as the chunks passed
before the end, and finds no complete body in an output that was not ended. -/
theorem readChunked_chunkedOutput (calls : List Call) :
    readChunked (chunkedOutput calls) =
      if calls.any Call.ends then some ((chunksBeforeEnd calls).flatten, []) else none := by
  have hne := chunksBeforeEnd_ne_nil calls
  have hfl := length_le_flatMap_chunkFrame (chunksBeforeEnd calls)
  unfold readChunked chunkedOutput
  split_ifs with h
  · have hl : lastChunk.length = 5 := rfl
    rw [show ((chunksBeforeEnd calls).flatMap chunkFrame ++ lastChunk).length + 1 =
        (((chunksBeforeEnd calls).flatMap chunkFrame).length - (chunksBeforeEnd calls).length + 4
          + 2) + (chunksBeforeEnd calls).length by simp only [List.length_append, hl]; omega,
      decodeChunked_frames _ hne]
    simpa [lastChunk] using decodeChunked_last _ (chunksBeforeEnd calls).flatten []
  · rw [List.append_nil, show ((chunksBeforeEnd calls).flatMap chunkFrame).length + 1 =
        (((chunksBeforeEnd calls).flatMap chunkFrame).length - (chunksBeforeEnd calls).length + 1)
          + (chunksBeforeEnd calls).length by omega, ← List.append_nil
          ((chunksBeforeEnd calls).flatMap chunkFrame), decodeChunked_frames _ hne]
    rfl

/-- An ended chunked output is read to its last byte, whatever follows it. -/
theorem readChunked_chunkedOutput_append {calls : List Call} (h : calls.any Call.ends = true)
    (rest : Bytes) :
    readChunked (chunkedOutput calls ++ rest) = some ((chunksBeforeEnd calls).flatten, rest) := by
  have hne := chunksBeforeEnd_ne_nil calls
  have hfl := length_le_flatMap_chunkFrame (chunksBeforeEnd calls)
  have hl : lastChunk.length = 5 := rfl
  unfold readChunked chunkedOutput
  rw [if_pos h, List.append_assoc, show ((chunksBeforeEnd calls).flatMap chunkFrame ++
      (lastChunk ++ rest)).length + 1 = (((chunksBeforeEnd calls).flatMap chunkFrame).length -
        (chunksBeforeEnd calls).length + rest.length + 4 + 2) + (chunksBeforeEnd calls).length by
      simp only [List.length_append, hl]; omega, decodeChunked_frames _ hne]
  simpa [lastChunk] using decodeChunked_last _ (chunksBeforeEnd calls).flatten rest

/-! ### Pass-through framing -/

/-- The reply of `eof()` or `plain_chunked()` to a call. -/
def passReply : Call → Reply
  | .encode c => .encode (.ok c.isEmpty)
  | .encodeEof => .encodeEof (.ok ())

/-- **Pass-through framing.** For every sequence of calls on `eof()` or `plain_chunked()`, in any
order and number, the encoder never changes, queues every chunk as it is, one after another,
also after an empty chunk or `encode_eof` (neither ends anything), and answers each `encode` with
whether its chunk is empty and each `encode_eof` with `Ok(())`. -/
theorem passThrough_framing {te : TransferEncoding} (hk : te.kind = .eof ∨ te.kind = .plainChunked)
    (calls : List Call) (buf : WriteBuf) :
    ∃ buf', te.run buf calls = some (calls.map passReply, te, buf') ∧
      buf.Appends (calls.flatMap Call.chunk) buf' := by
  induction calls generalizing buf with
  | nil => exact ⟨buf, rfl, by simpa using WriteBuf.Appends.refl buf⟩
  | cons c cs ih =>
    cases c with
    | encode msg =>
      obtain ⟨b, hb, ha⟩ := encode_passThrough hk msg buf
      obtain ⟨b', hb', ha'⟩ := ih b
      exact ⟨b', by rw [run_cons_of_step (step_encode hb), hb']; rfl, ha.trans ha'⟩
    | encodeEof =>
      obtain ⟨b', hb', ha'⟩ := ih buf
      refine ⟨b', ?_, by simpa [Call.chunk] using ha'⟩
      rw [run_cons_of_step (step_encodeEof (by rw [encodeEof_passThrough hk]; rfl)), hb']; rfl

/-- An upgraded stream's chunks, the second one empty, go out raw and in order. -/
theorem passThrough_framing_upgrade :
    (plainChunked.kind = .eof ∨ plainChunked.kind = .plainChunked) ∧
    ∃ buf', plainChunked.run (.flat []) [.encode [1, 2], .encode [], .encode [3], .encodeEof] =
        some ([.encode (.ok false), .encode (.ok true), .encode (.ok false), .encodeEof (.ok ())],
          plainChunked, buf') ∧
      (WriteBuf.flat []).Appends [1, 2, 3] buf' :=
  ⟨.inr rfl, passThrough_framing (.inr rfl) [.encode [1, 2], .encode [], .encode [3], .encodeEof] _⟩

/-- **Chunked framing round trip.** For every sequence of calls on `chunked()`, in any order and
number, the encoder queues the frame of each chunk passed before the body ends (the first empty
chunk or `encode_eof`), then the last chunk once if the body ended and nothing otherwise; an
encode reports the end exactly when the body ended before it or its chunk is empty; and the
RFC 7230 chunked decoder reads an ended output to its last byte as the concatenated chunks,
while it finds no complete body in an output that was not ended. -/
theorem chunked_framing (calls : List Call) (buf : WriteBuf) :
    ∃ buf', chunked.run buf calls =
        some (chunkedReplies false calls, ⟨.encodeChunked (calls.any Call.ends)⟩, buf') ∧
      buf'.queued = buf.queued ++ (chunksBeforeEnd calls).flatMap chunkFrame ++
        (if calls.any Call.ends then lastChunk else []) ∧
      readChunked (chunkedOutput calls) =
        if calls.any Call.ends then some ((chunksBeforeEnd calls).flatten, []) else none := by
  obtain ⟨b, hb, ha⟩ := run_chunked calls buf
  exact ⟨b, hb, by rw [ha.1, chunkedOutput, List.append_assoc], readChunked_chunkedOutput calls⟩

/-- A chunk passed and the body never ended: the frame of the chunk is queued, and the chunked
decoder finds no end in it. -/
theorem chunked_unended_incomplete : ∃ buf,
    chunked.run (.flat []) [.encode (ascii "a")] = some ([.encode (.ok false)], chunked, buf) ∧
    buf.queued = chunkFrame (ascii "a") ∧ readChunked buf.queued = none := by
  obtain ⟨b, hb, ha⟩ := run_chunked [.encode (ascii "a")] (.flat [])
  have hq : b.queued = chunkFrame (ascii "a") := by
    rw [ha.1]; simp [chunkedOutput, chunksBeforeEnd, Call.ends, Call.chunk, ascii]
  refine ⟨b, hb, hq, ?_⟩
  rw [ha.1]
  exact readChunked_chunkedOutput [.encode (ascii "a")]

end ActixServerAlt.H1
