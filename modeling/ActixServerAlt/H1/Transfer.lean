import ActixServerAlt.H1.Buf
import ActixServerAlt.H1.Context
import ActixServerAlt.H1.Error

/-!
# The body encoder

`TransferEncoding` in `h1/proto/encode.rs`: the state machine that frames a response body.

* `Kind`: the coder's state, shared with the body decoder (`codec::Kind`, not in the source);
* `TransferEncoding.encode` and `TransferEncoding.encodeEof`, each with its two buffer modes,
  and `ResponseBody.encoder`, which picks the encoder for a body;
* `TransferEncoding.run`: a sequence of calls, stopping at a panic;
* one lemma per state saying what `encode` and `encode_eof` queue, return and leave behind.
  Later files cite these and never unfold the encoder;
* `Kind.Advances`: how far a call may move the state within its variant, and
  `encoder_kind_stays`: no run of calls on a constructed encoder reaches `unreachable!()`, and at
  every cut of the run the state has advanced from the start and advances on to the end.
-/

namespace ActixServerAlt.H1

/-- Modelled from the spec: `codec::Kind`. `decodeChunked` is the decoder's state, which the
encoder never builds. -/
inductive Kind
  | length (remaining : UInt64)
  | decodeChunked
  | encodeChunked (eof : Bool)
  | plainChunked
  | eof
  deriving DecidableEq, Repr

/-- `TransferEncoding`. -/
structure TransferEncoding where
  kind : Kind
  deriving DecidableEq, Repr

/-- Modelled from the spec: `ResponseBodySize`, the size hint of a body. -/
inductive ResponseBodySize
  | none
  | stream
  | sized (n : UInt64)
  deriving DecidableEq, Repr

/-- Modelled from the spec: `ResponseBody`, a stream body given by the chunks it yields. -/
inductive ResponseBody
  | none
  | bytes (b : Bytes)
  | stream (chunks : List Bytes)
  deriving DecidableEq, Repr

namespace TransferEncoding

/-- `TransferEncoding::eof`. -/
def eof : TransferEncoding := ⟨.eof⟩

/-- `TransferEncoding::chunked`. -/
def chunked : TransferEncoding := ⟨.encodeChunked false⟩

/-- `TransferEncoding::plain_chunked`. -/
def plainChunked : TransferEncoding := ⟨.plainChunked⟩

/-- `TransferEncoding::length`. -/
def length (len : UInt64) : TransferEncoding := ⟨.length len⟩

/-- `TransferEncoding::encode`: frame `msg` into `buf`; the result is the encoder's `EOF`
state. `msg.len() as u64` is exact for every buffer a `usize` can measure, so the minimum is
taken on naturals. -/
def encode (te : TransferEncoding) (msg : Bytes) (buf : WriteBuf) :
    Ret IoError (TransferEncoding × WriteBuf) Bool :=
  match te.kind with
  | .eof | .plainChunked =>
    let eof := msg.isEmpty
    match buf with
    | .flat bytes => .ok eof (te, .flat (bytes ++ msg))
    | .list list => .ok eof (te, .list (list.buffer (.buf msg)))
  | .encodeChunked eof =>
    if eof then .ok true (te, buf) else
    match buf with
    | .list list =>
      if msg.isEmpty then
        .ok true (⟨.encodeChunked true⟩, .list (list.buffer (.static (ascii "0\r\n\r\n"))))
      else
        .ok false (te, .list (((list.buffer (.buf (upperHex msg.length ++ ascii "\r\n"))).buffer
          (.buf msg)).buffer (.static (ascii "\r\n"))))
    | .flat bytes =>
      if msg.isEmpty then .ok true (⟨.encodeChunked true⟩, .flat (bytes ++ ascii "0\r\n\r\n"))
      else
        .ok false (te, .flat
          (bytes ++ (upperHex msg.length ++ ascii "\r" ++ ascii "\n") ++ msg ++ ascii "\r\n"))
  | .length remaining =>
    if 0 < remaining then
      if msg.isEmpty then .ok (remaining == 0) (te, buf) else
      let len := min remaining.toNat msg.length
      let chunk := splitTo msg len (Nat.min_le_right _ _)
      let buf := match buf with
        | .flat bytes => .flat (bytes ++ chunk)
        | .list list => .list (list.buffer (.buf chunk))
      let remaining := remaining - UInt64.ofNat len
      .ok (remaining == 0) (⟨.length remaining⟩, buf)
    else .ok true (te, buf)
  | .decodeChunked => .panic unreachableMsg

/-- `TransferEncoding::encode_eof`. -/
def encodeEof (te : TransferEncoding) (buf : WriteBuf) :
    Ret IoError (TransferEncoding × WriteBuf) Unit :=
  match te.kind with
  | .eof | .plainChunked => .ok () (te, buf)
  | .length rem => if rem ≠ 0 then .err ⟨.unexpectedEof, ""⟩ (te, buf) else .ok () (te, buf)
  | .encodeChunked eof =>
    if !eof then
      match buf with
      | .flat bytes => .ok () (⟨.encodeChunked true⟩, .flat (bytes ++ ascii "0\r\n\r\n"))
      | .list list =>
        .ok () (⟨.encodeChunked true⟩, .list (list.buffer (.static (ascii "0\r\n\r\n"))))
    else .ok () (te, buf)
  | .decodeChunked => .panic unreachableMsg

end TransferEncoding

namespace ResponseBody

/-- Modelled from the spec: the size hint of a body. -/
def size : ResponseBody → ResponseBodySize
  | .none => .none
  | .bytes b => .sized (UInt64.ofNat b.length)
  | .stream _ => .stream

/-- `ResponseBody::encoder`. -/
def encoder (body : ResponseBody) (ctype : ConnectionType) : TransferEncoding :=
  match body with
  | .none => .eof
  | .bytes b => .length (UInt64.ofNat b.length)
  | .stream _ => if ctype = .upgrade then .plainChunked else .chunked

end ResponseBody

/-! ### What each call does -/

/-- The frame of one chunk: its length in upper-case hex, CRLF, the bytes, CRLF. -/
def chunkFrame (msg : Bytes) : Bytes := upperHex msg.length ++ crlf ++ msg ++ crlf

/-- The last chunk, which ends a chunked body. -/
def lastChunk : Bytes := ascii "0\r\n\r\n"

namespace TransferEncoding

open WriteBuf

/-- `Eof` and `PlainChunked` queue the bytes as they are and report an empty chunk. -/
theorem encode_passThrough {te : TransferEncoding} (hk : te.kind = .eof ∨ te.kind = .plainChunked)
    (msg : Bytes) (buf : WriteBuf) :
    ∃ buf', te.encode msg buf = .ok msg.isEmpty (te, buf') ∧ buf.Appends msg buf' := by
  cases buf with
  | flat b => exact ⟨_, by rcases hk with hk | hk <;> simp [encode, hk], appends_flat b msg⟩
  | list l => exact ⟨_, by rcases hk with hk | hk <;> simp [encode, hk], appends_buffer l (.buf msg)⟩

/-- A finished chunked encoder writes nothing and reports the end. -/
theorem encode_chunked_done (msg : Bytes) (buf : WriteBuf) :
    (⟨.encodeChunked true⟩ : TransferEncoding).encode msg buf = .ok true (⟨.encodeChunked true⟩, buf) :=
  rfl

/-- An empty chunk ends a chunked body. -/
theorem encode_chunked_last (buf : WriteBuf) :
    ∃ buf', chunked.encode [] buf = .ok true (⟨.encodeChunked true⟩, buf') ∧
      buf.Appends lastChunk buf' := by
  cases buf with
  | flat b => exact ⟨_, rfl, appends_flat b _⟩
  | list l => exact ⟨_, rfl, appends_buffer l (.static _)⟩

/-- A non-empty chunk is framed. -/
theorem encode_chunked_frame {msg : Bytes} (h : msg ≠ []) (buf : WriteBuf) :
    ∃ buf', chunked.encode msg buf = .ok false (chunked, buf') ∧ buf.Appends (chunkFrame msg) buf' := by
  have he : msg.isEmpty = false := by simpa using h
  cases buf with
  | flat b =>
    refine ⟨.flat (b ++ (upperHex msg.length ++ ascii "\r" ++ ascii "\n") ++ msg ++ ascii "\r\n"),
      by simp [chunked, encode, he], ?_⟩
    simp [Appends, scratch, chunkFrame]
  | list l =>
    refine ⟨.list (((l.buffer (.buf (upperHex msg.length ++ ascii "\r\n"))).buffer (.buf msg)).buffer
      (.static (ascii "\r\n"))), by simp [chunked, encode, he], ?_⟩
    simp [Appends, scratch, chunkFrame, queued]

/-- A length encoder queues what is left of the declared length and counts it down; it reports
the end once the count reaches zero. -/
theorem encode_length (n : UInt64) (msg : Bytes) (buf : WriteBuf) :
    ∃ buf', (length n).encode msg buf =
      .ok (decide (n.toNat ≤ msg.length)) (length (UInt64.ofNat (n.toNat - msg.length)), buf') ∧
      buf.Appends (msg.take n.toNat) buf' := by
  have hn := n.toNat_lt_size
  by_cases h0 : n.toNat = 0
  · have : n = 0 := (u64_eq_zero_iff n).mpr h0
    subst this
    exact ⟨buf, by simp [length, encode], by simpa using Appends.refl buf⟩
  have hpos : 0 < n := (u64_pos_iff n).mpr (by omega)
  by_cases hm : msg = []
  · subst hm
    refine ⟨buf, ?_, by simpa using Appends.refl buf⟩
    simp [length, encode, hpos, h0, u64_ofNat_toNat, (u64_eq_zero_iff n).not.mpr h0]
  have hrem : n - UInt64.ofNat (min n.toNat msg.length) = UInt64.ofNat (n.toNat - msg.length) :=
    UInt64.toNat.inj (by rw [u64_toNat_sub (Nat.min_le_left _ _), u64_toNat_ofNat (by omega)]; omega)
  have htake : msg.take (min n.toNat msg.length) = msg.take n.toNat := by
    rw [← List.take_take, List.take_length]
  have heof : (UInt64.ofNat (n.toNat - msg.length) == 0) = decide (n.toNat ≤ msg.length) := by
    rw [Bool.eq_iff_iff, beq_iff_eq, u64_eq_zero_iff, u64_toNat_ofNat (by omega)]; simp; omega
  have he : msg.isEmpty = false := by simpa using hm
  cases buf with
  | flat b =>
    refine ⟨_, ?_, appends_flat b (msg.take n.toNat)⟩
    simp only [length, encode, hpos, if_true, he, Bool.false_eq_true, if_false, splitTo, hrem, heof, htake]
  | list l =>
    refine ⟨_, ?_, appends_buffer l (.buf (msg.take n.toNat))⟩
    simp only [length, encode, hpos, if_true, he, Bool.false_eq_true, if_false, splitTo, hrem, heof, htake]

theorem encodeEof_passThrough {te : TransferEncoding} (hk : te.kind = .eof ∨ te.kind = .plainChunked)
    (buf : WriteBuf) : te.encodeEof buf = .ok () (te, buf) := by
  rcases hk with hk | hk <;> simp [encodeEof, hk]

/-- `encode_eof` on a length encoder succeeds exactly when the count is zero. -/
theorem encodeEof_length (n : UInt64) (buf : WriteBuf) :
    (length n).encodeEof buf =
      if n.toNat = 0 then .ok () (length n, buf) else .err ⟨.unexpectedEof, ""⟩ (length n, buf) := by
  by_cases h : n.toNat = 0 <;> simp [length, encodeEof, h, u64_eq_zero_iff]

/-- `encode_eof` ends a chunked body that is not yet ended. -/
theorem encodeEof_chunked (buf : WriteBuf) :
    ∃ buf', chunked.encodeEof buf = .ok () (⟨.encodeChunked true⟩, buf') ∧
      buf.Appends lastChunk buf' := by
  cases buf with
  | flat b => exact ⟨_, rfl, appends_flat b _⟩
  | list l => exact ⟨_, rfl, appends_buffer l (.static _)⟩

theorem encodeEof_chunked_done (buf : WriteBuf) :
    (⟨.encodeChunked true⟩ : TransferEncoding).encodeEof buf = .ok () (⟨.encodeChunked true⟩, buf) :=
  rfl

/-! ### What a call does, for every buffer -/

/-- What `encode` returns, the encoder it leaves and the bytes it queues; `none` when it
panics. None of them depends on the buffer. -/
def encodeOut (te : TransferEncoding) (msg : Bytes) : Option (Bool × TransferEncoding × Bytes) :=
  match te.kind with
  | .eof | .plainChunked => some (msg.isEmpty, te, msg)
  | .encodeChunked true => some (true, te, [])
  | .encodeChunked false =>
    if msg.isEmpty then some (true, ⟨.encodeChunked true⟩, lastChunk)
    else some (false, te, chunkFrame msg)
  | .length n => some (decide (n.toNat ≤ msg.length), length (UInt64.ofNat (n.toNat - msg.length)),
      msg.take n.toNat)
  | .decodeChunked => none

/-- What `encode_eof` returns, the encoder it leaves and the bytes it queues; `none` when it
panics. -/
def encodeEofOut (te : TransferEncoding) : Option (Except IoError Unit × TransferEncoding × Bytes) :=
  match te.kind with
  | .eof | .plainChunked | .encodeChunked true => some (.ok (), te, [])
  | .encodeChunked false => some (.ok (), ⟨.encodeChunked true⟩, lastChunk)
  | .length n => some (if n.toNat = 0 then .ok () else .error ⟨.unexpectedEof, ""⟩, te, [])
  | .decodeChunked => none

/-- **`encode` on any buffer** does what `encodeOut` says. -/
theorem encode_spec (te : TransferEncoding) (msg : Bytes) (buf : WriteBuf) :
    match te.encodeOut msg with
    | some (r, te', out) => ∃ buf', te.encode msg buf = .ok r (te', buf') ∧ buf.Appends out buf'
    | none => te.encode msg buf = .panic unreachableMsg := by
  obtain ⟨k⟩ := te
  cases k with
  | eof => exact encode_passThrough (.inl rfl) msg buf
  | plainChunked => exact encode_passThrough (.inr rfl) msg buf
  | decodeChunked => rfl
  | length n => exact encode_length n msg buf
  | encodeChunked eof =>
    cases eof with
    | true => exact ⟨buf, encode_chunked_done msg buf, by simpa using Appends.refl buf⟩
    | false =>
      by_cases hm : msg = []
      · subst hm; exact encode_chunked_last buf
      · have he : msg.isEmpty = false := by simpa using hm
        simpa [encodeOut, he] using encode_chunked_frame hm buf

/-- **`encode_eof` on any buffer** does what `encodeEofOut` says. -/
theorem encodeEof_spec (te : TransferEncoding) (buf : WriteBuf) :
    match te.encodeEofOut with
    | some (r, te', out) => ∃ buf', (te.encodeEof buf).result = some (r, te', buf') ∧
        buf.Appends out buf'
    | none => te.encodeEof buf = .panic unreachableMsg := by
  have hrefl : buf.Appends [] buf := Appends.refl buf
  obtain ⟨k⟩ := te
  cases k with
  | eof => exact ⟨buf, by rw [encodeEof_passThrough (.inl rfl)]; rfl, hrefl⟩
  | plainChunked => exact ⟨buf, by rw [encodeEof_passThrough (.inr rfl)]; rfl, hrefl⟩
  | decodeChunked => rfl
  | length n =>
    refine ⟨buf, ?_, hrefl⟩
    rw [show (⟨.length n⟩ : TransferEncoding) = length n from rfl, encodeEof_length]
    split <;> rfl
  | encodeChunked eof =>
    cases eof with
    | true => exact ⟨buf, by rw [encodeEof_chunked_done]; rfl, hrefl⟩
    | false =>
      obtain ⟨b, hb, ha⟩ := encodeEof_chunked buf
      exact ⟨b, by rw [show (⟨.encodeChunked false⟩ : TransferEncoding) = chunked from rfl, hb]; rfl,
        ha⟩

end TransferEncoding

/-! ### Runs of calls -/

/-- A call on a body encoder. -/
inductive Call
  | encode (msg : Bytes)
  | encodeEof
  deriving DecidableEq, Repr

/-- What a call returned: `io::Result<bool>` or `io::Result<()>`. -/
inductive Reply
  | encode (r : Except IoError Bool)
  | encodeEof (r : Except IoError Unit)

namespace TransferEncoding

/-- One call; `none` when it panics. -/
def step (te : TransferEncoding) (buf : WriteBuf) :
    Call → Option (Reply × TransferEncoding × WriteBuf)
  | .encode msg => (te.encode msg buf).result.map fun r => (.encode r.1, r.2)
  | .encodeEof => (te.encodeEof buf).result.map fun r => (.encodeEof r.1, r.2)

/-- A sequence of calls on one encoder; `none` when one of them panics. -/
def run (te : TransferEncoding) (buf : WriteBuf) :
    List Call → Option (List Reply × TransferEncoding × WriteBuf)
  | [] => some ([], te, buf)
  | c :: cs => (te.step buf c).bind fun r =>
      (run r.2.1 r.2.2 cs).map fun rest => (r.1 :: rest.1, rest.2)

@[simp] theorem run_nil (te : TransferEncoding) (buf : WriteBuf) : te.run buf [] = some ([], te, buf) :=
  rfl

theorem run_cons (te : TransferEncoding) (buf : WriteBuf) (c : Call) (cs : List Call) :
    te.run buf (c :: cs) = (te.step buf c).bind fun r =>
      (run r.2.1 r.2.2 cs).map fun rest => (r.1 :: rest.1, rest.2) := rfl

theorem step_encode {te te' : TransferEncoding} {buf buf' : WriteBuf} {msg : Bytes} {b : Bool}
    (h : te.encode msg buf = .ok b (te', buf')) :
    te.step buf (.encode msg) = some (.encode (.ok b), te', buf') := by
  simp [step, h, Ret.result]

theorem step_encodeEof {te te' : TransferEncoding} {buf buf' : WriteBuf}
    {r : Except IoError Unit} (h : (te.encodeEof buf).result = some (r, te', buf')) :
    te.step buf .encodeEof = some (.encodeEof r, te', buf') := by
  simp [step, h]

/-- Running a call that returns `r`, then the rest. -/
theorem run_cons_of_step {te te' : TransferEncoding} {buf buf' : WriteBuf} {c : Call} {r : Reply}
    (h : te.step buf c = some (r, te', buf')) (cs : List Call) :
    te.run buf (c :: cs) = (te'.run buf' cs).map fun rest => (r :: rest.1, rest.2) := by
  simp [run_cons, h]

theorem run_append (te : TransferEncoding) (buf : WriteBuf) (cs ds : List Call) :
    te.run buf (cs ++ ds) = (te.run buf cs).bind fun r =>
      (r.2.1.run r.2.2 ds).map fun r' => (r.1 ++ r'.1, r'.2) := by
  induction cs generalizing te buf with
  | nil => simp
  | cons c cs ih =>
    rw [List.cons_append, run_cons, run_cons]
    cases te.step buf c with
    | none => rfl
    | some r => simp only [Option.some_bind, ih]; cases run r.2.1 r.2.2 cs <;> simp [Function.comp_def]

end TransferEncoding

/-! ### The encoder stays in its variant -/

namespace Kind

/-- How an encoder's state may move: within its variant, with the chunked flag only set and the
length counter only counted down. The decoder's state is no encoder state. -/
def Advances : Kind → Kind → Prop
  | .eof, k => k = .eof
  | .plainChunked, k => k = .plainChunked
  | .encodeChunked a, k => ∃ b, k = .encodeChunked b ∧ (a = true → b = true)
  | .length n, k => ∃ m, k = .length m ∧ m ≤ n
  | .decodeChunked, _ => False

theorem Advances.refl {k : Kind} (hk : k ≠ .decodeChunked) : k.Advances k := by
  cases k with
  | length n => exact ⟨n, rfl, (u64_le_iff n n).mpr (le_refl _)⟩
  | decodeChunked => exact hk rfl
  | encodeChunked a => exact ⟨a, rfl, id⟩
  | plainChunked | eof => rfl

theorem Advances.trans {k₁ k₂ k₃ : Kind} (h₁ : k₁.Advances k₂) (h₂ : k₂.Advances k₃) :
    k₁.Advances k₃ := by
  cases k₁ with
  | length n =>
    obtain ⟨m, rfl, hm⟩ := h₁
    obtain ⟨l, rfl, hl⟩ := h₂
    exact ⟨l, rfl, (u64_le_iff l n).mpr (le_trans ((u64_le_iff l m).mp hl) ((u64_le_iff m n).mp hm))⟩
  | decodeChunked => exact h₁.elim
  | encodeChunked a =>
    obtain ⟨b, rfl, hb⟩ := h₁
    obtain ⟨c, rfl, hc⟩ := h₂
    exact ⟨c, rfl, hc ∘ hb⟩
  | plainChunked | eof => subst h₁; exact h₂

theorem Advances.ne_decodeChunked {k k' : Kind} (h : k.Advances k') : k' ≠ .decodeChunked := by
  cases k with
  | length n => obtain ⟨m, rfl, -⟩ := h; exact Kind.noConfusion
  | decodeChunked => exact h.elim
  | encodeChunked a => obtain ⟨b, rfl, -⟩ := h; exact Kind.noConfusion
  | plainChunked | eof => subst h; exact Kind.noConfusion

end Kind

namespace TransferEncoding

/-- Calls on one encoder, each on the buffer it is given (the transport may drain the buffer
between calls): the encoder after them, or `none` when one of them panics. -/
def afterCalls (te : TransferEncoding) : List (Call × WriteBuf) → Option TransferEncoding
  | [] => some te
  | (c, buf) :: calls => (te.step buf c).bind fun r => afterCalls r.2.1 calls

/-- `encode` on an encoder state returns and moves within the variant. -/
theorem encodeOut_advances {te : TransferEncoding} (hk : te.kind ≠ .decodeChunked) (msg : Bytes) :
    ∃ r te' out, te.encodeOut msg = some (r, te', out) ∧ te.kind.Advances te'.kind := by
  obtain ⟨k⟩ := te
  cases k with
  | length n =>
    refine ⟨_, _, _, rfl, _, rfl, ?_⟩
    rw [u64_le_iff, u64_toNat_ofNat (by have := n.toNat_lt_size; omega)]
    omega
  | decodeChunked => exact absurd rfl hk
  | encodeChunked a =>
    cases a with
    | true => exact ⟨_, _, _, rfl, true, rfl, id⟩
    | false =>
      by_cases hm : msg.isEmpty
      · exact ⟨true, ⟨.encodeChunked true⟩, lastChunk, by simp [encodeOut, hm], true, rfl, fun _ => rfl⟩
      · exact ⟨false, ⟨.encodeChunked false⟩, chunkFrame msg, by simp [encodeOut, hm], false, rfl, id⟩
  | plainChunked | eof => exact ⟨_, _, _, rfl, rfl⟩

/-- `encode_eof` on an encoder state returns and moves within the variant. -/
theorem encodeEofOut_advances {te : TransferEncoding} (hk : te.kind ≠ .decodeChunked) :
    ∃ r te' out, te.encodeEofOut = some (r, te', out) ∧ te.kind.Advances te'.kind := by
  obtain ⟨k⟩ := te
  cases k with
  | length n => exact ⟨_, _, _, rfl, n, rfl, (u64_le_iff n n).mpr (le_refl _)⟩
  | decodeChunked => exact absurd rfl hk
  | encodeChunked a => cases a <;> exact ⟨_, _, _, rfl, true, rfl, fun _ => rfl⟩
  | plainChunked | eof => exact ⟨_, _, _, rfl, rfl⟩

/-- **One call** on an encoder state, on any buffer, returns and moves within the variant. -/
theorem step_advances {te : TransferEncoding} (hk : te.kind ≠ .decodeChunked) (buf : WriteBuf)
    (c : Call) : ∃ r te' buf', te.step buf c = some (r, te', buf') ∧ te.kind.Advances te'.kind := by
  cases c with
  | encode msg =>
    obtain ⟨r, te', out, ho, ha⟩ := encodeOut_advances hk msg
    have hs := encode_spec te msg buf
    rw [ho] at hs
    obtain ⟨buf', he, -⟩ := hs
    exact ⟨_, te', buf', step_encode he, ha⟩
  | encodeEof =>
    obtain ⟨r, te', out, ho, ha⟩ := encodeEofOut_advances hk
    have hs := encodeEof_spec te buf
    rw [ho] at hs
    obtain ⟨buf', he, -⟩ := hs
    exact ⟨_, te', buf', step_encodeEof he, ha⟩

/-- Every sequence of calls on an encoder state returns and moves within the variant. -/
theorem afterCalls_advances {te : TransferEncoding} (hk : te.kind ≠ .decodeChunked)
    (calls : List (Call × WriteBuf)) :
    ∃ te', te.afterCalls calls = some te' ∧ te.kind.Advances te'.kind := by
  induction calls generalizing te with
  | nil => exact ⟨te, rfl, Kind.Advances.refl hk⟩
  | cons cb calls ih =>
    obtain ⟨c, buf⟩ := cb
    obtain ⟨r, te₁, buf₁, hs, ha⟩ := step_advances hk buf c
    obtain ⟨te', ht, ha'⟩ := ih ha.ne_decodeChunked
    exact ⟨te', by simp [afterCalls, hs, ht], ha.trans ha'⟩

theorem afterCalls_append (te : TransferEncoding) (p q : List (Call × WriteBuf)) :
    te.afterCalls (p ++ q) = (te.afterCalls p).bind fun te₁ => te₁.afterCalls q := by
  induction p generalizing te with
  | nil => rfl
  | cons cb p ih =>
    simp only [List.cons_append, afterCalls]
    cases te.step cb.2 cb.1 <;> simp [ih]

/-- Every constructor, and `ResponseBody::encoder` for every body and disposition, builds an
encoder state. -/
theorem kind_ne_decodeChunked {te : TransferEncoding}
    (hte : te = eof ∨ te = chunked ∨ te = plainChunked ∨ (∃ n, te = length n) ∨
      ∃ body ctype, te = ResponseBody.encoder body ctype) : te.kind ≠ .decodeChunked := by
  rcases hte with rfl | rfl | rfl | ⟨n, rfl⟩ | ⟨body, ctype, rfl⟩
  all_goals try exact Kind.noConfusion
  cases body with
  | none | bytes _ => exact Kind.noConfusion
  | stream _ => simp only [ResponseBody.encoder]; split <;> exact Kind.noConfusion

/-- **The unreachable arms are unreachable.** For an encoder built by `eof()`, `chunked()`,
`plain_chunked()`, `length(n)` or `ResponseBody::encoder`, and every sequence of `encode` and
`encode_eof` calls, each on any buffer, cut anywhere into the calls `p` before and `q` after: the
whole sequence returns without panicking, and the state at the cut is one the encoder moves to
within its variant and one from which it moves on within the variant to the state at the end. So
at every step of the run `Eof` and `PlainChunked` stay as they are, the chunked flag only goes
from `false` to `true` and never back, and the length counter never grows. -/
theorem encoder_kind_stays (te : TransferEncoding)
    (hte : te = eof ∨ te = chunked ∨ te = plainChunked ∨ (∃ n, te = length n) ∨
      ∃ body ctype, te = ResponseBody.encoder body ctype)
    (p q : List (Call × WriteBuf)) :
    ∃ te₁ te₂, te.afterCalls p = some te₁ ∧ te.afterCalls (p ++ q) = some te₂ ∧
      te.kind.Advances te₁.kind ∧ te₁.kind.Advances te₂.kind := by
  obtain ⟨te₁, h₁, ha₁⟩ := afterCalls_advances (kind_ne_decodeChunked hte) p
  obtain ⟨te₂, h₂, ha₂⟩ := afterCalls_advances ha₁.ne_decodeChunked q
  exact ⟨te₁, te₂, h₁, by rw [afterCalls_append, h₁, Option.some_bind, h₂], ha₁, ha₂⟩

/-- A chunked encoder given a chunk on a flat buffer, then `encode_eof` on a list buffer, cut
after the first call. -/
theorem encoder_kind_stays_chunked :
    (chunked = eof ∨ chunked = chunked ∨ chunked = plainChunked ∨ (∃ n, chunked = length n) ∨
      ∃ body ctype, chunked = ResponseBody.encoder body ctype) ∧
    ∃ te₁ te₂, chunked.afterCalls [(.encode (ascii "hi"), .flat [])] = some te₁ ∧
      chunked.afterCalls ([(.encode (ascii "hi"), .flat [])] ++ [(.encodeEof, .list ⟨[], []⟩)]) =
        some te₂ ∧
      chunked.kind.Advances te₁.kind ∧ te₁.kind.Advances te₂.kind :=
  ⟨.inr (.inl rfl), encoder_kind_stays chunked (.inr (.inl rfl)) [(.encode (ascii "hi"), .flat [])]
    [(.encodeEof, .list ⟨[], []⟩)]⟩

end TransferEncoding

end ActixServerAlt.H1
