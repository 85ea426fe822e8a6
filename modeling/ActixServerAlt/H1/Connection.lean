import ActixServerAlt.H1.Head

/-!
# One connection's encoder, and its two buffer modes

The calls the dispatcher makes on one connection's encoder, one after another: `encode_continue`,
`encode_head`, the choice of a body encoder, and `encode` / `encode_eof` on it. Each call is a
step of a state machine on the context, the body encoder and the write buffer (`Conn.step`); a
sequence of calls is a run (`Conn.run`), which stops when a call panics.

The write buffer has two modes, one flat buffer or a list of fragments, and every call has a
branch for each. `flat_list_agree` shows that the two modes are the same machine: from states
that agree, every run in which no `encode_head` returns an error gives the same replies and
agreeing states after every call, the list's scratch buffer empty and the flat bytes the
fragments in order.
-/

namespace ActixServerAlt.H1

open TransferEncoding

/-- What one connection's encoder keeps between calls. -/
structure Conn where
  ctx : Context
  te : TransferEncoding
  buf : WriteBuf

/-- A call on one connection's encoder. -/
inductive Op
  | encodeContinue
  | encodeHead (parts : Parts) (size : ResponseBodySize)
  | setEncoder (te : TransferEncoding)
  | encode (msg : Bytes)
  | encodeEof

/-- What a call returned. -/
inductive OpReply
  | unit
  | head (r : Except ProtoError Unit)
  | encode (r : Except IoError Bool)
  | encodeEof (r : Except IoError Unit)

/-- The call was an `encode_head` that returned an error. -/
def OpReply.isHeadErr : OpReply → Bool
  | .head (.error _) => true
  | _ => false

namespace Conn

/-- One call; `none` when it panics. -/
def step (c : Conn) : Op → Option (OpReply × Conn)
  | .encodeContinue => some (.unit, { c with buf := c.ctx.encodeContinue c.buf })
  | .encodeHead parts size =>
    match c.ctx.encodeHead parts size c.buf with
    | .ok () (ctx, buf) => some (.head (.ok ()), { c with ctx := ctx, buf := buf })
    | .err e (ctx, buf) => some (.head (.error e), { c with ctx := ctx, buf := buf })
    | .panic _ => none
  | .setEncoder te => some (.unit, { c with te := te })
  | .encode msg => (c.te.encode msg c.buf).result.map fun r =>
      (.encode r.1, { c with te := r.2.1, buf := r.2.2 })
  | .encodeEof => (c.te.encodeEof c.buf).result.map fun r =>
      (.encodeEof r.1, { c with te := r.2.1, buf := r.2.2 })

/-- A sequence of calls; `none` when one of them panics. -/
def run (c : Conn) : List Op → Option (List OpReply × Conn)
  | [] => some ([], c)
  | op :: ops => (c.step op).bind fun r => (r.2.run ops).map fun rest => (r.1 :: rest.1, rest.2)

/-- No `encode_head` of the run returns an error, up to the first panic. -/
def headOk (c : Conn) : List Op → Bool
  | [] => true
  | op :: ops =>
    match c.step op with
    | some (r, c') => !r.isHeadErr && c'.headOk ops
    | none => true

end Conn

/-- A flat and a list state agree: the same context and body encoder, the flat bytes are the
fragments the list queues, and the list's scratch buffer is empty. -/
def Agree (f l : Conn) : Prop :=
  f.ctx = l.ctx ∧ f.te = l.te ∧ f.buf.scratch = none ∧ l.buf.scratch = some [] ∧
    f.buf.queued = l.buf.queued

/-- Two runs, or two steps, agree: both panic, or both return the same replies and leave
agreeing states. -/
def RunAgree {α : Type} (r r' : Option (α × Conn)) : Prop :=
  Option.Rel (fun a b => a.1 = b.1 ∧ Agree a.2 b.2) r r'

/-! ### One call -/

theorem scratch_eq_none {b : WriteBuf} (h : b.scratch = none) : ∃ bytes, b = .flat bytes := by
  cases b with
  | flat bytes => exact ⟨bytes, rfl⟩
  | list l => cases h

theorem scratch_eq_some_nil {b : WriteBuf} (h : b.scratch = some []) :
    ∃ frags, b = .list ⟨frags, []⟩ := by
  cases b with
  | flat bytes => cases h
  | list l => cases l; cases h; exact ⟨_, rfl⟩

/-- The same bytes appended on both sides keep them agreeing. -/
theorem agree_appends {f l : Conn} (h : Agree f l) {out : Bytes} {bf bl : WriteBuf}
    (hf : f.buf.Appends out bf) (hl : l.buf.Appends out bl) (te : TransferEncoding) :
    Agree { f with te := te, buf := bf } { l with te := te, buf := bl } :=
  ⟨h.1, rfl, hf.2.trans h.2.2.1, hl.2.trans h.2.2.2.1, by rw [hf.1, hl.1, h.2.2.2.2]⟩

theorem step_encode_agree {f l : Conn} (h : Agree f l) (msg : Bytes) :
    RunAgree (f.step (.encode msg)) (l.step (.encode msg)) := by
  have hf := encode_spec f.te msg f.buf
  have hl := encode_spec l.te msg l.buf
  rw [← h.2.1] at hl
  simp only [Conn.step, ← h.2.1]
  cases hs : f.te.encodeOut msg with
  | none => rw [hs] at hf hl; rw [hf, hl]; exact .none
  | some v =>
    obtain ⟨r, te', out⟩ := v
    rw [hs] at hf hl
    obtain ⟨bf, hbf, haf⟩ := hf
    obtain ⟨bl, hbl, hal⟩ := hl
    rw [hbf, hbl]
    exact .some ⟨rfl, agree_appends h haf hal te'⟩

theorem step_encodeEof_agree {f l : Conn} (h : Agree f l) :
    RunAgree (f.step .encodeEof) (l.step .encodeEof) := by
  have hf := encodeEof_spec f.te f.buf
  have hl := encodeEof_spec l.te l.buf
  rw [← h.2.1] at hl
  simp only [Conn.step, ← h.2.1]
  cases hs : f.te.encodeEofOut with
  | none => rw [hs] at hf hl; rw [hf, hl]; exact .none
  | some v =>
    obtain ⟨r, te', out⟩ := v
    rw [hs] at hf hl
    obtain ⟨bf, hbf, haf⟩ := hf
    obtain ⟨bl, hbl, hal⟩ := hl
    rw [hbf, hbl]
    exact .some ⟨rfl, agree_appends h haf hal te'⟩

theorem step_encodeHead_agree {f l : Conn} (h : Agree f l) (parts : Parts)
    (size : ResponseBodySize) (hok : ∀ r ∈ f.step (.encodeHead parts size), r.1.isHeadErr = false) :
    RunAgree (f.step (.encodeHead parts size)) (l.step (.encodeHead parts size)) := by
  obtain ⟨bytes, hfb⟩ := scratch_eq_none h.2.2.1
  obtain ⟨frags, hlb⟩ := scratch_eq_some_nil h.2.2.2.1
  obtain ⟨ctx, te, fb⟩ := f
  obtain ⟨ctx', te', lb⟩ := l
  obtain ⟨rfl, rfl, -, -, hq⟩ := h
  dsimp only at hfb hlb hq
  subst hfb hlb
  have hi := encodeHeadInner_append ctx parts size bytes []
  rw [List.append_nil] at hi
  simp only [Conn.step, Context.encodeHead, hi] at hok ⊢
  generalize ctx.encodeHeadInner parts size [] = x at hok ⊢
  cases x with
  | ok _ r => exact .some ⟨rfl, rfl, rfl, rfl, rfl, by simp [WriteBuf.queued] at hq ⊢; rw [hq]⟩
  | err e r => simp [Ret.mapState, OpReply.isHeadErr] at hok
  | panic m => exact .none

/-- **One call in both modes.** From agreeing states, a call that is not an `encode_head`
returning an error does the same in both buffer modes. -/
theorem step_agree {f l : Conn} (h : Agree f l) (op : Op)
    (hok : ∀ r ∈ f.step op, r.1.isHeadErr = false) : RunAgree (f.step op) (l.step op) := by
  cases op with
  | encodeContinue =>
    obtain ⟨bytes, hfb⟩ := scratch_eq_none h.2.2.1
    obtain ⟨frags, hlb⟩ := scratch_eq_some_nil h.2.2.2.1
    have hq := h.2.2.2.2
    rw [hfb, hlb] at hq
    simp only [WriteBuf.queued] at hq
    refine .some ⟨rfl, h.1, h.2.1, ?_, ?_, ?_⟩ <;>
      simp [Context.encodeContinue, hfb, hlb, WriteBuf.scratch, WriteBuf.queued, hq]
  | encodeHead parts size => exact step_encodeHead_agree h parts size hok
  | setEncoder te => exact .some ⟨rfl, h.1, rfl, h.2.2⟩
  | encode msg => exact step_encode_agree h msg
  | encodeEof => exact step_encodeEof_agree h

/-! ### Whole runs -/

theorem RunAgree.cons {α : Type} {x y : Option (List α × Conn)} (h : RunAgree x y) (a : α) :
    RunAgree (x.map fun rest => (a :: rest.1, rest.2)) (y.map fun rest => (a :: rest.1, rest.2)) := by
  cases h with
  | none => exact .none
  | some h => exact .some ⟨congrArg (a :: ·) h.1, h.2⟩

/-- **Runs in both modes.** From agreeing states, a run in which no `encode_head` returns an
error gives the same replies in both buffer modes and leaves agreeing states, or panics in
both. -/
theorem run_agree {f l : Conn} (h : Agree f l) (ops : List Op) (hok : f.headOk ops = true) :
    RunAgree (f.run ops) (l.run ops) := by
  induction ops generalizing f l with
  | nil => exact .some ⟨rfl, h⟩
  | cons op ops ih =>
    have hs := step_agree h op fun r hr => by
      simp only [Conn.headOk, Option.mem_def.mp hr, Bool.and_eq_true, Bool.not_eq_true'] at hok
      exact hok.1
    simp only [Conn.run]
    rcases hfs : f.step op with _ | ⟨r, f'⟩ <;> rcases hls : l.step op with _ | ⟨r', l'⟩ <;>
      rw [hfs, hls] at hs
    · exact .none
    · cases hs
    · cases hs
    · cases hs with
      | some hr =>
        obtain ⟨rfl, ha⟩ := hr
        simp only [Conn.headOk, hfs, Bool.and_eq_true] at hok
        exact (ih ha hok.2).cons r

theorem headOk_of_isPrefix {c : Conn} {p ops : List Op} (hp : p <+: ops) (h : c.headOk ops = true) :
    c.headOk p = true := by
  induction ops generalizing c p with
  | nil => rw [List.prefix_nil.mp hp]; rfl
  | cons op ops ih =>
    cases p with
    | nil => rfl
    | cons op' p =>
      obtain ⟨rfl, hp'⟩ := List.cons_prefix_cons.mp hp
      simp only [Conn.headOk] at h ⊢
      split at h
      · simp only [Bool.and_eq_true] at h ⊢; exact ⟨h.1, ih hp' h.2⟩
      · rfl

/-- **Flat and list buffers agree.** From a flat state and a list state that agree (the same
context and body encoder, the flat bytes the fragments in order, the scratch buffer empty), every
sequence of calls in which no `encode_head` returns an error gives, after every call, the same
replies in both modes and agreeing states, or panics in both. -/
theorem flat_list_agree {f l : Conn} (h : Agree f l) (ops : List Op) (hok : f.headOk ops = true) :
    ∀ p ∈ ops.inits, RunAgree (f.run p) (l.run p) :=
  fun p hp => run_agree h p (headOk_of_isPrefix (List.mem_inits p ops |>.mp hp) hok)

/-- A `100 Continue`, a streamed `200` response and its two calls, from empty buffers. -/
theorem flat_list_agree_stream :
    Agree ⟨Context.new ⟨ascii "Sun, 06 Nov 1994 08:49:37 GMT", by decide⟩, .eof, .flat []⟩
      ⟨Context.new ⟨ascii "Sun, 06 Nov 1994 08:49:37 GMT", by decide⟩, .eof, .list ⟨[], []⟩⟩ ∧
    Conn.headOk ⟨Context.new ⟨ascii "Sun, 06 Nov 1994 08:49:37 GMT", by decide⟩, .eof, .flat []⟩
      [.encodeContinue, .encodeHead ⟨.ok, .http11, .empty⟩ .stream, .setEncoder .chunked,
        .encode (ascii "hi"), .encodeEof] = true ∧
    ∀ p ∈ [Op.encodeContinue, .encodeHead ⟨.ok, .http11, .empty⟩ .stream, .setEncoder .chunked,
        .encode (ascii "hi"), .encodeEof].inits,
      RunAgree
        (Conn.run ⟨Context.new ⟨ascii "Sun, 06 Nov 1994 08:49:37 GMT", by decide⟩, .eof, .flat []⟩ p)
        (Conn.run ⟨Context.new ⟨ascii "Sun, 06 Nov 1994 08:49:37 GMT", by decide⟩, .eof,
          .list ⟨[], []⟩⟩ p) :=
  ⟨⟨rfl, rfl, rfl, rfl, rfl⟩, rfl,
    flat_list_agree (by exact ⟨rfl, rfl, rfl, rfl, rfl⟩) _ (by rfl)⟩

end ActixServerAlt.H1
