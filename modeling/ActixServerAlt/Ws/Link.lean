import ActixServerAlt.Ws.Encode

/-!
# Two websocket peers over a transport

`DecodeStream::encode_stream` pairs a decoder with an `EncodeStream` that shares its codec.
Across a connection, the chunks one peer's `EncodeStream` yields are written to the transport,
which hands the bytes, cut and paused as it likes, to the inner stream of the other peer's
`DecodeStream`.

* `FrameEncoder.encoded`: the messages sent that encode;
* `FrameCodec.ReadsFrames`: the peer's codec reads each frame the encoder writes back as the
  message it encodes;
* `link_delivers`: the peer decodes, in order and each once, a prefix of the messages sent that
  encode, whatever the interleaving of sends, the close and polls on the sending side, the
  chunks the transport cuts and the polls on the receiving side; and once the sender has
  finished and the transport has passed on every byte and ended, a peer that reaches
  `Ready(None)` has decoded all of them.
-/

namespace ActixServerAlt.Ws

variable {PE PD E M : Type}

/-- The messages among `ms` that encode, in order. -/
def FrameEncoder.encoded (c : FrameEncoder PE M) (ms : List M) : List M :=
  ms.filter fun msg => match c.frame msg with | .ok _ => true | .error _ => false

/-- The peer's codec reads every frame the encoder writes back as the message it encodes. -/
def FrameCodec.ReadsFrames (dec : FrameCodec PD M) (enc : FrameEncoder PE M) : Prop :=
  ∀ msg f, enc.frame msg = .ok f → dec.frame f = some (f.length, .ok msg)

theorem FrameEncoder.encoded_append (c : FrameEncoder PE M) (ms ms' : List M) :
    c.encoded (ms ++ ms') = c.encoded ms ++ c.encoded ms' :=
  List.filter_append _ _

namespace FrameCodec

variable {dec : FrameCodec PD M} {enc : FrameEncoder PE M}

/-- The peer cuts the encoder's frames back into their messages, whatever follows them. -/
theorem frames_encoder (h : dec.ReadsFrames enc) (ms : List M) (rest : Bytes) :
    dec.frames (enc.frames ms ++ rest) =
      ((enc.encoded ms).map .ok ++ (dec.frames rest).1, (dec.frames rest).2) := by
  induction ms with
  | nil => rfl
  | cons msg ms ih =>
    cases hf : enc.frame msg with
    | error e => simpa [FrameEncoder.frames, FrameEncoder.encoded, hf] using ih
    | ok f =>
      rw [show enc.frames (msg :: ms) ++ rest = f ++ (enc.frames ms ++ rest) by
          simp [FrameEncoder.frames, hf],
        frames_of_some (frame_append (h msg f hf) _), List.drop_left, ih]
      simp [FrameEncoder.encoded, hf]

/-- What the peer cuts from a prefix of the encoder's frames is a prefix of their messages. -/
theorem frames_isPrefix (h : dec.ReadsFrames enc) {p : Bytes} {ms : List M}
    (hp : p <+: enc.frames ms) : (dec.frames p).1 <+: (enc.encoded ms).map .ok := by
  obtain ⟨q, hq⟩ := hp
  have hall : dec.frames (p ++ q) = _ := frames_append p q
  rw [hq, ← List.append_nil (enc.frames ms), frames_encoder h,
    show dec.frames [] = ([], []) from rfl, List.append_nil] at hall
  exact ⟨_, (congrArg Prod.fst hall).symm⟩

end FrameCodec

theorem DecodeStream.Answered.isPrefix {es pre : List (Event E)} {st : Option (List (Event E))}
    (h : DecodeStream.Answered es pre st) : pre <+: es := by
  cases st with
  | some post => exact ⟨post, h.symm⟩
  | none => obtain ⟨_, post, -, rfl⟩ := h; exact List.prefix_append _ _

theorem received_isPrefix {es es' : List (Event E)} (h : es <+: es') : received es <+: received es' := by
  obtain ⟨post, rfl⟩ := h
  rw [received_append]
  exact List.prefix_append _ _

/-- **Two peers over a transport.** Let one peer's `EncodeStream`, from `with_capacity`, run any
interleaving of sends, the drop of the last sender and polls with any budgets; let the transport
hand any prefix of the bytes it yielded, in any chunks with pauses and errors between them, to the
inner stream of the other peer's `DecodeStream`, polled any number of times; and let the peer's
codec read the encoder's frames back. Then the peer yields no protocol error, and the messages it yields are a
prefix of the messages sent that encode, in send order, each once. When the sender has
finished (its last answer is `Ready(None)`), the transport has passed on every byte and then
ended, and the peer's last answer is `Ready(None)`, the peer has yielded all of them. -/
theorem link_delivers (enc : FrameEncoder PE M) (dec : FrameCodec PD M) (hr : dec.ReadsFrames enc)
    (cap : Nat) (acts : List (Action M)) {s₀ : EncodeStream M}
    (h₀ : EncodeStream.withCapacity cap = some s₀) {outs : List (Chunk PE)} {s : EncodeStream M}
    (he : EncodeStream.run enc.encode s₀ acts = some (outs, s))
    (es : List (Event E)) (hes : received es <+: (outs.filterMap chunk).flatten) (n : Nat)
    {outs' : List (Item PD E M)} {s' : DecodeStream E}
    (hd : DecodeStream.polls dec.decode n (DecodeStream.new es) = (outs', s')) :
    ∃ ms, outs'.filterMap decoded = ms.map .ok ∧ ms <+: enc.encoded (sent acts) ∧
      (outs.getLast? = some (.ready none) → outs'.getLast? = some (.ready none) →
        (∃ es₀, es = es₀ ++ [.done] ∧ .done ∉ es₀ ∧
          received es₀ = (outs.filterMap chunk).flatten) →
        ms = enc.encoded (sent acts)) := by
  obtain ⟨taken, hs, hb, -, -, hn, -⟩ :=
    (EncodeStream.delivered_withCapacity h₀ : EncodeStream.Delivered enc [] [] _).after_run he
  simp only [List.nil_append] at hs hb hn
  have hdl := (DecodeStream.delivered_new es : DecodeStream.Delivered dec es [] _).after_polls n
  rw [hd, List.nil_append] at hdl
  dsimp only at hdl
  obtain ⟨pre, ha, hsp, -, hn', -⟩ := hdl
  have hpre : (dec.frames (received pre)).1 <+: (enc.encoded (sent acts)).map .ok := by
    refine (FrameCodec.frames_isPrefix hr (((received_isPrefix ha.isPrefix).trans hes).trans
      ⟨s.buf, hb⟩)).trans ?_
    rw [hs, FrameEncoder.encoded_append, List.map_append]
    exact List.prefix_append _ _
  have hdec : outs'.filterMap decoded <+: (enc.encoded (sent acts)).map .ok :=
    List.IsPrefix.trans ⟨_, (congrArg Prod.fst hsp).symm⟩ hpre
  have htake := List.prefix_iff_eq_take.mp hdec
  rw [← List.map_take] at htake
  refine ⟨_, htake, List.take_prefix _ _, fun hl hl' ⟨es₀, hes₀, hdone, hrec⟩ => ?_⟩
  obtain ⟨hrx, hbuf⟩ := hn hl
  obtain ⟨hst, hfr⟩ := hn' hl'
  rw [hst, hes₀] at ha
  have hbytes : (outs.filterMap chunk).flatten = enc.frames (sent acts) := by
    rw [hbuf, List.append_nil] at hb
    rw [hb, hs, show s.queued = [] by simp [EncodeStream.queued, hrx], List.append_nil]
  have hall : dec.frames (received pre) = ((enc.encoded (sent acts)).map .ok, []) := by
    rw [ha.all hdone, received_append, hrec, show received [(.done : Event E)] = [] from rfl,
      List.append_nil, hbytes, ← List.append_nil (enc.frames (sent acts)),
      FrameCodec.frames_encoder hr, show dec.frames [] = ([], []) from rfl, List.append_nil]
  have hsp' : dec.frames (received pre) = _ := hsp
  rw [hsp', FrameCodec.frames_of_none hfr] at hall
  have hdec' : outs'.filterMap decoded = (enc.encoded (sent acts)).map .ok := by
    simpa using congrArg Prod.fst hall
  rw [hdec', List.length_map, List.take_length]

/-- A codec reading one-byte frames: the byte `1` is `true`, any other byte an error. -/
def boolCodec : FrameCodec Unit Bool where
  frame b := b.head?.map fun x => (1, if x = 1 then .ok true else .error ())
  frame_bounds := by
    intro b n r h
    cases b with
    | nil => cases h
    | cons x t => cases h; simp
  frame_take_append := by
    intro b n r h rest
    cases b with
    | nil => cases h
    | cons x t => cases h; rfl

theorem boolCodec_readsFrames : boolCodec.ReadsFrames EncodeStream.boolEncoder := by
  intro msg f h
  cases msg <;> simp [EncodeStream.boolEncoder] at h
  subst h
  rfl

/-- Two messages sent and the last sender dropped, their frames passed on one byte at a time
with a pause between: the peer yields both messages, then `Ready(None)`. -/
theorem link_delivers_two :
    boolCodec.ReadsFrames EncodeStream.boolEncoder ∧
    EncodeStream.withCapacity 128 = some (⟨[], some ⟨128, [], false⟩⟩ : EncodeStream Bool) ∧
    EncodeStream.run EncodeStream.boolEncoder.encode ⟨[], some ⟨128, [], false⟩⟩
        [.send true, .send true, .close, .poll 128, .poll 128] =
      some ([.ready (some (.ok [1, 1])), .ready none], ⟨[], none⟩) ∧
    received [.chunk [1], .pending, .chunk [1], (.done : Event Unit)] <+:
      (([.ready (some (.ok [1, 1])), .ready none] : List (Chunk Unit)).filterMap chunk).flatten ∧
    DecodeStream.polls boolCodec.decode 3
        (DecodeStream.new [.chunk [1], .pending, .chunk [1], (.done : Event Unit)]) =
      ([.ready (some (.ok true)), .ready (some (.ok true)), .ready none], ⟨none, []⟩) ∧
    ∃ ms, ([.ready (some (.ok true)), .ready (some (.ok true)), .ready none] :
        List (Item Unit Unit Bool)).filterMap decoded = ms.map .ok ∧
      ms <+: EncodeStream.boolEncoder.encoded (sent [.send true, .send true, .close, .poll 128, .poll 128]) ∧
      (([.ready (some (.ok [1, 1])), .ready none] : List (Chunk Unit)).getLast? = some (.ready none) →
        ([.ready (some (.ok true)), .ready (some (.ok true)), .ready none] :
          List (Item Unit Unit Bool)).getLast? = some (.ready none) →
        (∃ es₀, [.chunk [1], .pending, .chunk [1], (.done : Event Unit)] = es₀ ++ [.done] ∧
          .done ∉ es₀ ∧ received es₀ =
            (([.ready (some (.ok [1, 1])), .ready none] : List (Chunk Unit)).filterMap chunk).flatten) →
        ms = EncodeStream.boolEncoder.encoded (sent [.send true, .send true, .close, .poll 128, .poll 128])) :=
  ⟨boolCodec_readsFrames, rfl, rfl, ⟨[], rfl⟩, rfl,
    link_delivers _ _ boolCodec_readsFrames 128 [.send true, .send true, .close, .poll 128, .poll 128] rfl
      rfl [.chunk [1], .pending, .chunk [1], .done] ⟨[], rfl⟩ 3 rfl⟩
end ActixServerAlt.Ws
