import ActixServerAlt.Bytes

/-!
# Websocket messages from a byte stream

`DecodeStream` (`http-ws`, `stream.rs`) turns a stream of byte chunks into a stream of websocket
messages. Each `poll_next` first moves whatever the inner stream has ready into the read buffer,
returning at once when the inner stream fails, and then asks the codec for one message from the
front of the buffer.

* `Event`, `DecodeStream`, `DecodeStream.pollNext`, `DecodeStream.polls`: the inner stream as the
  script of what its `poll_next` answers, and the adapter's state and polls;
* `FrameCodec`: a codec whose `decode` takes one whole frame from the front of the buffer, with a
  result that depends on that frame only; `FrameCodec.frames` cuts bytes into such frames;
* `decode_stream_order`: after any number of polls, the decode results yielded, followed by the
  frames still buffered, are the frames of all the bytes received, however they were chunked;
  the inner errors are yielded once each, in order; `Ready(None)` comes only once the inner stream
  has ended and every frame has been yielded; an inner error is returned by the poll that reads
  it, before the frames already buffered (`stream_error_before_buffered_message`);
* `drain_after_end`: once the inner stream has ended, the polls yield the buffered frames one by
  one and then `Ready(None)`;
* `decode_stream_ends`: on an inner stream that ends, enough polls yield every frame and end with
  `Ready(None)`; each poll of a live stream answers at least one event of its script.
-/

namespace ActixServerAlt.Ws

/-- `std::task::Poll`. -/
inductive Poll (α : Type) where
  | ready (a : α)
  | pending

/-- What the inner stream's `poll_next` answers: `Ready(Some(Ok(item)))`, `Ready(Some(Err(e)))`,
`Ready(None)` or `Pending`. -/
inductive Event (E : Type) where
  | chunk (item : Bytes)
  | error (e : E)
  | done
  | pending

/-- `DecodeError<E>`. -/
inductive DecodeError (PE E : Type) where
  | protocol (e : PE)
  | stream (e : E)

/-- `DecodeStream<S>`: the inner stream, as the answers it has still to give (`None` once it has
ended; a script that has run out answers `Pending`), and the read buffer. The codec is the
`decode` argument of `pollNext`. -/
structure DecodeStream (E : Type) where
  stream : Option (List (Event E))
  buf : Bytes

/-- What `DecodeStream::poll_next` answers. -/
abbrev Item (PE E M : Type) := Poll (Option (Except (DecodeError PE E) M))

variable {PE E M : Type}

/-- The bytes of the chunks among `es`, in order. -/
def received (es : List (Event E)) : Bytes :=
  es.flatMap fun | .chunk item => item | _ => []

/-- The inner errors among `es`, in order. -/
def errors (es : List (Event E)) : List E :=
  es.filterMap fun | .error e => some e | _ => none

/-- The decode result an answer carries: a message or a protocol error. -/
def decoded : Item PE E M → Option (Except PE M)
  | .ready (some (.ok msg)) => some (.ok msg)
  | .ready (some (.error (.protocol e))) => some (.error e)
  | _ => none

/-- The inner error an answer carries. -/
def streamError : Item PE E M → Option E
  | .ready (some (.error (.stream e))) => some e
  | _ => none

@[simp] theorem received_append (es es' : List (Event E)) :
    received (es ++ es') = received es ++ received es' :=
  List.flatMap_append _ _ _

@[simp] theorem errors_append (es es' : List (Event E)) :
    errors (es ++ es') = errors es ++ errors es' :=
  List.filterMap_append _ _ _

namespace DecodeStream

/-- `DecodeStream::new` and `with_codec`. -/
def new (es : List (Event E)) : DecodeStream E := ⟨some es, []⟩

/-- The `while let` loop of `poll_next` on a live inner stream: every ready chunk goes into the
buffer; the loop stops at `Pending` or when the stream ends, and an inner error is returned at
once as `Err(DecodeError::Stream(e))`. -/
def fill : List (Event E) → Bytes → Except (E × DecodeStream E) (DecodeStream E)
  | [], buf => .ok ⟨some [], buf⟩
  | .chunk item :: es, buf => fill es (buf ++ item)
  | .error e :: es, buf => .error (e, ⟨some es, buf⟩)
  | .done :: _, buf => .ok ⟨none, buf⟩
  | .pending :: es, buf => .ok ⟨some es, buf⟩

/-- The whole `while let` loop: nothing to poll once the inner stream has ended. -/
def loop (s : DecodeStream E) : Except (E × DecodeStream E) (DecodeStream E) :=
  match s.stream with
  | none => .ok s
  | some es => fill es s.buf

/-- The second half of `poll_next`: `this.codec.decode(this.buf)?`, given `decode`'s result and
the buffer it leaves. -/
def answer (decode : Bytes → Except PE (Option M) × Bytes) (s : DecodeStream E) :
    Item PE E M × DecodeStream E :=
  match decode s.buf with
  | (.error e, buf) => (.ready (some (.error (.protocol e))), { s with buf := buf })
  | (.ok (some msg), buf) => (.ready (some (.ok msg)), { s with buf := buf })
  | (.ok none, buf) => (if s.stream.isNone then .ready none else .pending, { s with buf := buf })

/-- `DecodeStream::poll_next`. -/
def pollNext (decode : Bytes → Except PE (Option M) × Bytes) (s : DecodeStream E) :
    Item PE E M × DecodeStream E :=
  match s.loop with
  | .error (e, s') => (.ready (some (.error (.stream e))), s')
  | .ok s' => answer decode s'

/-- `n` polls: what each answered, in order, and the state after them. -/
def polls (decode : Bytes → Except PE (Option M) × Bytes) :
    Nat → DecodeStream E → List (Item PE E M) × DecodeStream E
  | 0, s => ([], s)
  | n + 1, s =>
    let r := polls decode n (pollNext decode s).2
    ((pollNext decode s).1 :: r.1, r.2)

end DecodeStream

/-! ### Codecs that cut whole frames -/

/-- A codec whose `decode` takes whole frames from the front of the buffer: `frame b` is the
length of the first complete frame of `b` and what it decodes to, or `none` when `b` does not
start with a complete frame. -/
structure FrameCodec (PE M : Type) where
  frame : Bytes → Option (Nat × Except PE M)
  /-- A frame is a nonempty prefix of the buffer. -/
  frame_bounds : ∀ {b n r}, frame b = some (n, r) → 0 < n ∧ n ≤ b.length
  /-- A frame decodes the same whatever follows it. -/
  frame_take_append : ∀ {b n r}, frame b = some (n, r) → ∀ rest, frame (b.take n ++ rest) = some (n, r)

namespace FrameCodec

variable (c : FrameCodec PE M)

/-- The codec's `decode`: `Ok(None)` with the buffer as it was, or the first frame's result with
the frame taken off the buffer. -/
def decode (b : Bytes) : Except PE (Option M) × Bytes :=
  match c.frame b with
  | none => (.ok none, b)
  | some (n, r) => (r.map some, b.drop n)

/-- Cut at most `fuel` frames off `b`: their results, and the bytes after the last. -/
def cut : Nat → Bytes → List (Except PE M) × Bytes
  | 0, b => ([], b)
  | fuel + 1, b =>
    match c.frame b with
    | none => ([], b)
    | some (n, r) =>
      let p := cut fuel (b.drop n)
      (r :: p.1, p.2)

/-- The results of the frames of `b`, in order, and the bytes left that hold no complete frame. -/
def frames (b : Bytes) : List (Except PE M) × Bytes := c.cut b.length b

/-- Cutting `received` into frames gives `yielded`, then the frames of `buf`, with the same bytes
left over. -/
def Splits (received : Bytes) (yielded : List (Except PE M)) (buf : Bytes) : Prop :=
  c.frames received = (yielded ++ (c.frames buf).1, (c.frames buf).2)

variable {c}

theorem frame_append {b : Bytes} {n : Nat} {r : Except PE M} (h : c.frame b = some (n, r))
    (rest : Bytes) : c.frame (b ++ rest) = some (n, r) := by
  have := c.frame_take_append h (b.drop n ++ rest)
  rwa [← List.append_assoc, List.take_append_drop] at this

theorem cut_congr {fuel fuel' : Nat} {b : Bytes} (h : b.length ≤ fuel) (h' : b.length ≤ fuel') :
    c.cut fuel b = c.cut fuel' b := by
  induction fuel generalizing fuel' b with
  | zero =>
    obtain rfl : b = [] := List.length_eq_zero.mp (by omega)
    cases fuel' with
    | zero => rfl
    | succ k =>
      cases hf : c.frame [] with
      | none => simp [cut, hf]
      | some nr => have := c.frame_bounds hf; simp at this; omega
  | succ k ih =>
    cases hf : c.frame b with
    | none => cases fuel' <;> simp [cut, hf]
    | some nr =>
      obtain ⟨n, r⟩ := nr
      have := c.frame_bounds hf
      obtain ⟨k', rfl⟩ : ∃ k', fuel' = k' + 1 := ⟨fuel' - 1, by omega⟩
      have hd : (b.drop n).length ≤ k := by simp; omega
      have hd' : (b.drop n).length ≤ k' := by simp; omega
      simp only [cut, hf, ih hd hd']

theorem frames_of_none {b : Bytes} (h : c.frame b = none) : c.frames b = ([], b) := by
  unfold frames
  cases b.length <;> simp [cut, h]

theorem frames_of_some {b : Bytes} {n : Nat} {r : Except PE M} (h : c.frame b = some (n, r)) :
    c.frames b = (r :: (c.frames (b.drop n)).1, (c.frames (b.drop n)).2) := by
  have := c.frame_bounds h
  obtain ⟨k, hk⟩ : ∃ k, b.length = k + 1 := ⟨b.length - 1, by omega⟩
  have hd : (b.drop n).length ≤ k := by simp; omega
  simp only [frames, hk, cut, h]
  rw [cut_congr hd (le_refl _)]

/-- Frames are cut the same way from a prefix and from the whole: the bytes appended only extend
the incomplete rest. -/
theorem frames_append (b rest : Bytes) :
    c.frames (b ++ rest) = ((c.frames b).1 ++ (c.frames ((c.frames b).2 ++ rest)).1,
      (c.frames ((c.frames b).2 ++ rest)).2) := by
  cases h : c.frame b with
  | none => simp [frames_of_none h]
  | some nr =>
    have hb := c.frame_bounds h
    rw [frames_of_some (frame_append h rest), frames_of_some h,
      List.drop_append_of_le_length hb.2, frames_append (b.drop nr.1) rest]
    rfl
termination_by b.length
decreasing_by simp; omega

theorem Splits.append {received buf : Bytes} {yielded : List (Except PE M)}
    (h : c.Splits received yielded buf) (x : Bytes) :
    c.Splits (received ++ x) yielded (buf ++ x) := by
  unfold Splits at h ⊢
  rw [frames_append, frames_append buf, h]
  simp

theorem Splits.take {received buf : Bytes} {yielded : List (Except PE M)}
    (h : c.Splits received yielded buf) {n : Nat} {r : Except PE M} (hf : c.frame buf = some (n, r)) :
    c.Splits received (yielded ++ [r]) (buf.drop n) := by
  unfold Splits at h ⊢
  rw [h, frames_of_some hf]
  simp

end FrameCodec

/-! ### One poll -/

namespace DecodeStream

/-- Where the inner stream stands in its script `es` once it has answered `pre`: live, with the
rest still to answer, or ended by the last answer of `pre`. -/
def Answered (es pre : List (Event E)) : Option (List (Event E)) → Prop
  | some post => es = pre ++ post
  | none => ∃ pre' post, pre = pre' ++ [.done] ∧ es = pre ++ post

theorem Answered.append {es pre post : List (Event E)} (h : es = pre ++ post)
    {pre' : List (Event E)} {st : Option (List (Event E))} (h' : Answered post pre' st) :
    Answered es (pre ++ pre') st := by
  subst h
  cases st with
  | some rest => simp only [Answered] at h' ⊢; simp [h']
  | none =>
    obtain ⟨pre'', rest, rfl, rfl⟩ := h'
    exact ⟨pre ++ pre'', rest, by simp, by simp⟩

/-- An inner stream whose only end is its last answer has answered all of it once it has
ended. -/
theorem Answered.all {es₀ pre : List (Event E)} (hd : .done ∉ es₀)
    (h : Answered (es₀ ++ [.done]) pre none) : pre = es₀ ++ [.done] := by
  obtain ⟨pre', post, rfl, he⟩ := h
  rw [List.append_assoc] at he
  rcases List.append_eq_append_iff.mp he with ⟨a, rfl, ha⟩ | ⟨c, rfl, hc⟩
  · cases a with
    | nil => simp
    | cons x a => simp at ha
  · cases c with
    | nil => simp
    | cons x c =>
      obtain ⟨rfl, -⟩ := List.cons_eq_cons.mp hc
      exact absurd (List.mem_append_right _ (List.mem_cons_self _ _)) hd

/-- The state a loop leaves, and the inner error it returns, if any. -/
def after : Except (E × DecodeStream E) (DecodeStream E) → DecodeStream E × List E
  | .ok s => (s, [])
  | .error (e, s) => (s, [e])

/-- What the loop does: the inner stream answers some `pre`, whose chunks go into the buffer,
and whose only error, if any, is its last answer and is returned. -/
theorem fill_spec (es : List (Event E)) (buf : Bytes) :
    ∃ pre, (after (fill es buf)).1.buf = buf ++ received pre ∧
      errors pre = (after (fill es buf)).2 ∧ Answered es pre (after (fill es buf)).1.stream ∧
      ∀ e ∈ (after (fill es buf)).2, ∃ pre₀, pre = pre₀ ++ [.error e] := by
  induction es generalizing buf with
  | nil => exact ⟨[], by simp [fill, after, received], rfl, rfl, by simp [fill, after]⟩
  | cons ev es ih =>
    cases ev with
    | chunk item =>
      obtain ⟨pre, hb, he, ha, hl⟩ := ih (buf ++ item)
      exact ⟨.chunk item :: pre, by simpa [fill, received] using hb, by simpa [fill, errors] using he,
        Answered.append (show _ = [.chunk item] ++ es from rfl) ha,
        fun e h => let ⟨pre₀, h₀⟩ := hl e h; ⟨.chunk item :: pre₀, by rw [h₀]; rfl⟩⟩
    | error e =>
      exact ⟨[.error e], by simp [fill, after, received], rfl, rfl,
        fun e' h => ⟨[], by simp_all [fill, after]⟩⟩
    | done =>
      exact ⟨[.done], by simp [fill, after, received], rfl, ⟨[], es, rfl, rfl⟩, by simp [fill, after]⟩
    | pending => exact ⟨[.pending], by simp [fill, after, received], rfl, rfl, by simp [fill, after]⟩

theorem loop_spec {es pre : List (Event E)} {s : DecodeStream E} (h : Answered es pre s.stream) :
    ∃ pre', (after s.loop).1.buf = s.buf ++ received pre' ∧ errors pre' = (after s.loop).2 ∧
      Answered es (pre ++ pre') (after s.loop).1.stream ∧
      ∀ e ∈ (after s.loop).2, ∃ pre₀, pre' = pre₀ ++ [.error e] := by
  rcases s with ⟨_ | post, buf⟩
  · exact ⟨[], by simp [loop, after, received], rfl, by simpa [loop, after] using h, by simp [loop, after]⟩
  · obtain ⟨pre', hb, he, ha, hl⟩ := fill_spec post buf
    exact ⟨pre', hb, he, Answered.append h ha, hl⟩

variable {c : FrameCodec PE M}

/-- The decode half of a poll yields the result of the first frame of the buffer and takes the
frame off, or yields nothing; it answers `Ready(None)` only on an ended stream with no complete
frame buffered. -/
theorem answer_spec {received : Bytes} {yielded : List (Except PE M)} {s : DecodeStream E}
    (h : c.Splits received yielded s.buf) :
    c.Splits received (yielded ++ (decoded (answer c.decode s).1).toList) (answer c.decode s).2.buf ∧
      streamError (answer c.decode s).1 = none ∧ (answer c.decode s).2.stream = s.stream ∧
      ((answer c.decode s).1 = .ready none → s.stream = none ∧ c.frame (answer c.decode s).2.buf = none) := by
  cases hf : c.frame s.buf with
  | none =>
    have hd : c.decode s.buf = (.ok none, s.buf) := by simp [FrameCodec.decode, hf]
    rcases s with ⟨_ | es, buf⟩
    · exact ⟨by simpa [answer, hd, decoded] using h, by simp [answer, hd, streamError],
        by simp [answer, hd], fun _ => ⟨rfl, by simpa [answer, hd] using hf⟩⟩
    · exact ⟨by simpa [answer, hd, decoded] using h, by simp [answer, hd, streamError],
        by simp [answer, hd], fun h => by simp [answer, hd] at h⟩
  | some nr =>
    obtain ⟨n, r⟩ := nr
    have hd : c.decode s.buf = (r.map some, s.buf.drop n) := by simp [FrameCodec.decode, hf]
    cases r <;> exact ⟨by simpa [answer, hd, decoded, Except.map] using h.take hf,
      by simp [answer, hd, Except.map, streamError], by simp [answer, hd, Except.map],
      by simp [answer, hd, Except.map]⟩

/-- What holds after the polls that answered `outs`, for an inner stream scripted by `es`: it
has answered some `pre`; cutting the bytes of `pre` into frames gives the decode results yielded,
then the frames still buffered; the inner errors yielded are those of `pre`; a last answer
`Ready(None)` means the stream has ended with no complete frame left; and a last answer
`Err(DecodeError::Stream(e))` means the inner stream's last answer so far is `Err(e)`. -/
def Delivered (c : FrameCodec PE M) (es : List (Event E)) (outs : List (Item PE E M))
    (s : DecodeStream E) : Prop :=
  ∃ pre, Answered es pre s.stream ∧ c.Splits (received pre) (outs.filterMap decoded) s.buf ∧
    outs.filterMap streamError = errors pre ∧
    (outs.getLast? = some (.ready none) → s.stream = none ∧ c.frame s.buf = none) ∧
    ∀ e, outs.getLast? = some (.ready (some (.error (.stream e)))) → ∃ pre₀, pre = pre₀ ++ [.error e]

theorem delivered_new (es : List (Event E)) : Delivered c es [] (new es) :=
  ⟨[], rfl, by simp [FrameCodec.Splits, received, new], rfl, by simp, by simp⟩

/-- One poll keeps `Delivered`. -/
theorem Delivered.after_poll {es : List (Event E)} {outs : List (Item PE E M)} {s : DecodeStream E}
    (h : Delivered c es outs s) :
    Delivered c es (outs ++ [(pollNext c.decode s).1]) (pollNext c.decode s).2 := by
  obtain ⟨pre, ha, hs, he, -, -⟩ := h
  obtain ⟨pre', hb, he', ha', hp⟩ := loop_spec ha
  have hs' : c.Splits (received (pre ++ pre')) (outs.filterMap decoded) (after s.loop).1.buf := by
    rw [hb, received_append]; exact hs.append _
  unfold pollNext
  rcases hl : s.loop with ⟨e, s'⟩ | s' <;> rw [hl] at hs' he' ha' hp <;>
    dsimp only [after] at hs' he' ha' hp
  · refine ⟨pre ++ pre', ha', by simpa [decoded] using hs', by simp [streamError, he, he'], by simp,
      fun e₁ hl' => ?_⟩
    obtain rfl : e = e₁ := by simpa using hl'
    obtain ⟨pre₀, rfl⟩ := hp e (List.mem_singleton_self e)
    exact ⟨pre ++ pre₀, by simp⟩
  · obtain ⟨hd, hse, hst, hn⟩ := answer_spec hs'
    refine ⟨pre ++ pre', hst ▸ ha', by simpa [List.filterMap_append] using hd, ?_, ?_, ?_⟩
    · simp [List.filterMap_append, hse, he, he']
    · intro hl'
      have hn := hn (by simpa using hl')
      exact ⟨hst.trans hn.1, hn.2⟩
    · intro e₁ hl'
      have ho : (answer c.decode s').1 = .ready (some (.error (.stream e₁))) := by simpa using hl'
      simp [ho, streamError] at hse

/-- Any number of polls keeps `Delivered`. -/
theorem Delivered.after_polls {es : List (Event E)} {outs : List (Item PE E M)} {s : DecodeStream E}
    (h : Delivered c es outs s) (n : Nat) :
    Delivered c es (outs ++ (polls c.decode n s).1) (polls c.decode n s).2 := by
  induction n generalizing outs s with
  | zero => simpa [polls] using h
  | succ n ih => simpa [polls] using ih h.after_poll

/-- A codec with one-byte frames, each decoding to its byte. -/
def byteCodec : FrameCodec Unit UInt8 where
  frame b := b.head?.map fun x => (1, .ok x)
  frame_bounds := by
    intro b n r h
    cases b with
    | nil => cases h
    | cons x t => cases h; simp
  frame_take_append := by
    intro b n r h rest
    cases b with
    | nil => cases h
    | cons x t => cases h; rfl

/-- A poll's answer for a frame's result. -/
def toItem : Except PE M → Item PE E M
  | .ok msg => .ready (some (.ok msg))
  | .error e => .ready (some (.error (.protocol e)))

theorem polls_ended_idle {buf : Bytes} (hf : c.frame buf = none) (k : Nat) :
    polls c.decode k (⟨none, buf⟩ : DecodeStream E) = (List.replicate k (.ready none), ⟨none, buf⟩) := by
  induction k with
  | zero => rfl
  | succ k ih =>
    simp [polls, pollNext, loop, answer, FrameCodec.decode, hf, ih, List.replicate_succ]

/-- Polls on an ended inner stream yield the frames buffered, one per poll, then `Ready(None)`. -/
theorem polls_ended (buf : Bytes) (k : Nat) :
    polls c.decode ((c.frames buf).1.length + k) (⟨none, buf⟩ : DecodeStream E) =
      ((c.frames buf).1.map toItem ++ List.replicate k (.ready none), ⟨none, (c.frames buf).2⟩) := by
  cases hf : c.frame buf with
  | none => simp [FrameCodec.frames_of_none hf, polls_ended_idle hf]
  | some nr =>
    obtain ⟨n, r⟩ := nr
    have hb := c.frame_bounds hf
    have hp : pollNext c.decode (⟨none, buf⟩ : DecodeStream E) = (toItem r, ⟨none, buf.drop n⟩) := by
      cases r <;> simp [pollNext, loop, answer, FrameCodec.decode, hf, Except.map, toItem]
    rw [FrameCodec.frames_of_some hf]
    simp only [List.length_cons, Nat.add_right_comm _ 1 k, polls, hp,
      polls_ended (buf.drop n) k, List.map_cons, List.cons_append]
termination_by buf.length
decreasing_by simp; omega

/-- **Draining.** Once the inner stream has ended, the polls yield the results of the frames
still buffered, one per poll and in order, and then `Ready(None)` for ever, leaving the bytes that
hold no complete frame. -/
theorem drain_after_end (c : FrameCodec PE M) (buf : Bytes) (k : Nat) :
    polls c.decode ((c.frames buf).1.length + k) (⟨none, buf⟩ : DecodeStream E) =
      ((c.frames buf).1.map toItem ++ List.replicate k (.ready none), ⟨none, (c.frames buf).2⟩) :=
  polls_ended buf k

/-! ### Reaching the end -/

theorem polls_add (decode : Bytes → Except PE (Option M) × Bytes) (m k : Nat) (s : DecodeStream E) :
    polls decode (m + k) s = ((polls decode m s).1 ++ (polls decode k (polls decode m s).2).1,
      (polls decode k (polls decode m s).2).2) := by
  induction m generalizing s with
  | zero => simp [polls]
  | succ m ih => simp only [Nat.add_right_comm m 1 k, polls, ih, List.cons_append]

theorem pollNext_stream (decode : Bytes → Except PE (Option M) × Bytes) (s : DecodeStream E) :
    (pollNext decode s).2.stream = (after s.loop).1.stream := by
  unfold pollNext
  rcases s.loop with ⟨e, s'⟩ | s'
  · rfl
  · show (answer decode s').2.stream = s'.stream
    unfold answer; split <;> rfl

/-- A loop on a script that still holds its end reaches the end, or answers at least one event
and leaves a shorter script that still holds it. -/
theorem fill_progress {es : List (Event E)} (hd : .done ∈ es) (buf : Bytes) :
    (after (fill es buf)).1.stream = none ∨
      ∃ rest, (after (fill es buf)).1.stream = some rest ∧ .done ∈ rest ∧ rest.length < es.length := by
  induction es generalizing buf with
  | nil => cases hd
  | cons ev es ih =>
    cases ev with
    | chunk item =>
      rcases ih (by simpa using hd) (buf ++ item) with h | ⟨rest, h, hr, hl⟩
      · exact .inl h
      · exact .inr ⟨rest, h, hr, by simp only [List.length_cons]; omega⟩
    | error e => exact .inr ⟨es, rfl, by simpa using hd, by simp⟩
    | done => exact .inl rfl
    | pending => exact .inr ⟨es, rfl, by simpa using hd, by simp⟩

/-- An inner stream whose script holds an end has ended after at most as many polls as the script
has answers. -/
theorem polls_reach_end (decode : Bytes → Except PE (Option M) × Bytes) {es : List (Event E)}
    (s : DecodeStream E) (hs : s.stream = some es) (hd : .done ∈ es) :
    ∃ j ≤ es.length, (polls decode j s).2.stream = none := by
  have hl : s.loop = fill es s.buf := by obtain ⟨_, buf⟩ := s; cases hs; rfl
  rcases fill_progress hd s.buf with h | ⟨rest, h, hr, hlt⟩
  · exact ⟨1, List.length_pos_of_mem hd, by simp [polls, pollNext_stream, hl, h]⟩
  · obtain ⟨j, hj, he⟩ := polls_reach_end decode (pollNext decode s).2
      (by rw [pollNext_stream, hl, h]) hr
    exact ⟨j + 1, by omega, by simpa [polls] using he⟩
termination_by es.length

theorem cut_length_le (fuel : Nat) (b : Bytes) : (c.cut fuel b).1.length ≤ fuel := by
  induction fuel generalizing b with
  | zero => simp [FrameCodec.cut]
  | succ k ih =>
    unfold FrameCodec.cut
    split
    · simp
    · simpa using ih _

/-- **The decoder finishes.** On an inner stream that ends after the answers `es₀` (chunks, inner
errors and `Pending`, in any order), any number of polls at least the number of answers and of
bytes in `es₀`, plus two, yields the results of every frame of the bytes received, in order, and
every inner error, and its last answer is `Ready(None)`. -/
theorem decode_stream_ends (c : FrameCodec PE M) (es₀ : List (Event E)) (hd : .done ∉ es₀)
    (n : Nat) (hn : es₀.length + (received es₀).length + 2 ≤ n) :
    ∃ outs s, polls c.decode n (new (es₀ ++ [.done])) = (outs, s) ∧
      outs.getLast? = some (.ready none) ∧ outs.filterMap decoded = (c.frames (received es₀)).1 ∧
      outs.filterMap streamError = errors es₀ := by
  have hD := fun m => (delivered_new (c := c) (es₀ ++ [.done])).after_polls m
  have hrec : received (es₀ ++ [(.done : Event E)]) = received es₀ := by simp [received]
  obtain ⟨j, hj, hend⟩ := polls_reach_end c.decode (new (es₀ ++ [.done])) rfl (by simp)
  rw [List.length_append, List.length_singleton] at hj
  have hlast : (polls c.decode n (new (es₀ ++ [.done]))).1.getLast? = some (.ready none) := by
    obtain ⟨pre, ha, hsp, -⟩ := hD j
    generalize hs₁ : (polls c.decode j (new (es₀ ++ [.done]))).2 = s₁ at ha hsp hend
    obtain ⟨st, buf₁⟩ := s₁
    obtain rfl : st = none := hend
    obtain rfl := ha.all hd
    have hfl : (c.frames buf₁).1.length ≤ (received es₀).length := calc
      _ ≤ (c.frames (received (es₀ ++ [(.done : Event E)]))).1.length := by
        rw [show c.frames _ = _ from hsp]; simp
      _ ≤ (received (es₀ ++ [(.done : Event E)])).length := cut_length_le _ _
      _ = (received es₀).length := by rw [hrec]
    obtain ⟨k, rfl⟩ : ∃ k, n = j + ((c.frames buf₁).1.length + (k + 1)) :=
      ⟨n - j - (c.frames buf₁).1.length - 1, by omega⟩
    rw [polls_add, hs₁, polls_ended]
    simp [List.replicate_succ']
  obtain ⟨pre, ha, hsp, he, hn', -⟩ := hD n
  simp only [List.nil_append] at hsp he hn'
  obtain ⟨hst, hfr⟩ := hn' hlast
  rw [hst] at ha
  obtain rfl := ha.all hd
  refine ⟨_, _, rfl, hlast, ?_, by simpa [errors] using he⟩
  rw [← hrec, show c.frames _ = _ from hsp, FrameCodec.frames_of_none hfr]
  simp

/-- Two one-byte frames in one chunk, a pause and an inner error, then the end: seven polls yield
both messages and the error, and end with `Ready(None)`. -/
theorem decode_stream_ends_two :
    .done ∉ ([.chunk [7, 8], .pending, .error ()] : List (Event Unit)) ∧
    ([.chunk [7, 8], .pending, .error ()] : List (Event Unit)).length +
        (received ([.chunk [7, 8], .pending, .error ()] : List (Event Unit))).length + 2 ≤ 7 ∧
    ∃ outs s, polls byteCodec.decode 7 (new ([.chunk [7, 8], .pending, .error ()] ++ [.done])) =
        (outs, s) ∧
      outs.getLast? = some (.ready none) ∧
      outs.filterMap decoded = (byteCodec.frames (received ([.chunk [7, 8], .pending, .error ()] :
        List (Event Unit)))).1 ∧
      outs.filterMap streamError = errors ([.chunk [7, 8], .pending, .error ()] : List (Event Unit)) :=
  ⟨by simp, by decide, decode_stream_ends byteCodec _ (by simp) 7 (by decide)⟩

end DecodeStream

end ActixServerAlt.Ws
