import ActixServerAlt.H1.Head

/-!
# What a failed `encode_head` leaves

`encode_head_inner` returns `Err` in two places: at the status, before it writes anything, and at
a `Connection` value that is not visible ASCII, after it has written the status line and the lines
of every value before it. The rewind to the length the buffer had (`orig_len`) is commented out in
the source, so those bytes stay: in a flat buffer they are queued for the transport, and in a list
buffer they stay in the scratch buffer. The spec's error policy (section 7) is that such a
connection is discarded, not unwritten.

* `WriteBuf.stage`: a buffer with bytes written where the head encoder writes;
* `Failure`: why `encode_head` failed, and the bytes it wrote before;
* `encodeHead_err`: a failed `encode_head` leaves the context as it was and the buffer with
  exactly those bytes staged;
* `connection_error_stages_status_line`: a `Connection` value with a non-ASCII byte leaves
  `HTTP/1.1 200 OK` after the flat bytes, or in the scratch buffer of a list buffer.
-/

namespace ActixServerAlt.H1

open HeadState

/-- The buffer with `out` written where the head encoder writes: after the flat bytes, or at the
end of a list buffer's scratch buffer. -/
def WriteBuf.stage (buf : WriteBuf) (out : Bytes) : WriteBuf :=
  match buf with
  | .flat b => .flat (b ++ out)
  | .list l => .list { l with buf := l.buf ++ out }

@[simp] theorem WriteBuf.stage_nil (buf : WriteBuf) : buf.stage [] = buf := by
  cases buf <;> simp [WriteBuf.stage]

/-- Why `encode_head` failed, and the bytes `out` it had written by then: a `1xx` status other
than `101`, with nothing written; or, with the connection not forced to close, a `Connection`
entry whose first value is not visible ASCII, after entries holding one value each, with the
status line and their lines written. -/
def Failure (ctx : Context) (parts : Parts) (e : ProtoError) (out : Bytes) : Prop :=
  (e = .parse .statusCode ∧ parts.status.isInformational = true ∧
      parts.status ≠ .switchingProtocols ∧ out = []) ∨
  ∃ pre v vs post, parts.headers.entries = pre ++ (.connection, v, vs) :: post ∧
    (∀ x ∈ pre, x.2.2 = []) ∧ ctx.isForceClose = false ∧ v.toStr = none ∧
    e = .parse .headerValue ∧
    out = statusLine parts.version parts.status ++ pre.flatMap fun x => fieldLine x.1 x.2.1

/-- A failed header loop stopped at the first value of a `Connection` entry, after entries with
one value each, which it went through as `drained` says. -/
theorem encodeFields_err {s s' : HeadState} {e : ProtoError}
    {es : List (HeaderName × HeaderValue × List HeaderValue)}
    (h : encodeFields s (es.flatMap fun x => (some x.1, x.2.1) :: x.2.2.map fun v => (none, v)) =
      .err e s') :
    ∃ pre v vs post, es = pre ++ (.connection, v, vs) :: post ∧ (∀ x ∈ pre, x.2.2 = []) ∧
      s.ctx.isForceClose = false ∧ v.toStr = none ∧ e = .parse .headerValue ∧
      s' = s.drained (pre.map fun x => (x.1, x.2.1)) := by
  induction es generalizing s with
  | nil => cases h
  | cons x es ih =>
    obtain ⟨n, v, vs⟩ := x
    rcases encodeField_some_cases s n v with ⟨he, -⟩ | ⟨he, hr⟩
    · cases vs with
      | cons w ws =>
        have hn : encodeField (s.drained [(n, v)]) (none, w) = .panic optionalNameMsg := rfl
        simp only [List.flatMap_cons, List.map_cons, List.cons_append, encodeFields, he, hn] at h
        cases h
      | nil =>
        simp only [List.flatMap_cons, List.map_nil, List.cons_append, List.nil_append,
          encodeFields, he] at h
        obtain ⟨pre, v', vs', post, rfl, hp, hf, hv, rfl, rfl⟩ := ih h
        refine ⟨(n, v, []) :: pre, v', vs', post, rfl, List.forall_mem_cons.mpr ⟨rfl, hp⟩,
          by rwa [drained_isForceClose] at hf, hv, rfl, ?_⟩
        rw [List.map_cons, ← drained_append, List.singleton_append]
    · simp only [List.flatMap_cons, List.cons_append, encodeFields, he] at h
      cases h
      simp only [Readable, Classical.not_imp] at hr
      obtain ⟨hf, hn, ht⟩ := hr
      exact ⟨[], v, vs, es, by rw [← hn]; rfl, List.forall_mem_nil _, hf, HeaderValue.toStr_eq_none ht,
        rfl, (drained_nil _).symm⟩

/-- Values that are not `Connection` values leave the context alone and are written as they
are. -/
theorem drained_of_not_connection {s : HeadState} {fs : List (HeaderName × HeaderValue)}
    (hf : s.ctx.isForceClose = false) (hc : ∀ f ∈ fs, f.1 ≠ .connection) :
    (s.drained fs).ctx = s.ctx ∧ (s.drained fs).buf = s.buf ++ fs.flatMap fun f => fieldLine f.1 f.2 := by
  have hv : connectionValues fs = [] := by
    rw [connectionValues, List.filter_eq_nil_iff.mpr fun f hf => by simpa using hc f hf, List.map_nil]
  simp [drained, hf, hv, writtenFields, lastOr]

/-- `skip_len` fails only on a `1xx` status other than `101`. -/
theorem skipLenOf_eq_error {ctx : Context} {status : StatusCode} {e : ProtoError}
    (h : skipLenOf ctx status = .error e) :
    e = .parse .statusCode ∧ status.isInformational = true ∧ status ≠ .switchingProtocols := by
  unfold skipLenOf at h
  split_ifs at h with h1 h2 h3
  cases h
  exact ⟨rfl, h3, h1⟩

/-- A name stands once in a header map: no entry before an entry has its name. -/
theorem HeaderMap.ne_of_mem_before {m : HeaderMap} {pre post : List (HeaderName × HeaderValue × List HeaderValue)}
    {n : HeaderName} {v : HeaderValue} {vs : List HeaderValue} (h : m.entries = pre ++ (n, v, vs) :: post)
    {x : HeaderName × HeaderValue × List HeaderValue} (hx : x ∈ pre) : x.1 ≠ n := by
  have hnd := m.nodup
  rw [h, List.map_append, List.map_cons] at hnd
  exact fun he => (List.nodup_append.mp hnd).2.2 (List.mem_map_of_mem Prod.fst hx)
    (he ▸ List.mem_cons_self _ _)

/-- **A failed `encode_head_inner`** leaves the context as it was and the bytes `Failure` names
after what the buffer held. -/
theorem encodeHeadInner_err {ctx : Context} {parts : Parts} {size : ResponseBodySize} {b : Bytes}
    {e : ProtoError} {r : Context × Bytes} (h : ctx.encodeHeadInner parts size b = .err e r) :
    r.1 = ctx ∧ ∃ out, r.2 = b ++ out ∧ Failure ctx parts e out := by
  unfold Context.encodeHeadInner at h
  split at h
  · rename_i hs
    cases h
    obtain ⟨rfl, hi, hn⟩ := skipLenOf_eq_error hs
    exact ⟨rfl, [], by simp, .inl ⟨rfl, hi, hn, rfl⟩⟩
  · dsimp only at h
    split at h <;> cases h
    rename_i hfs
    obtain ⟨pre, v, vs, post, hes, hp, hf, hv, rfl, rfl⟩ := encodeFields_err hfs
    obtain ⟨hctx, hbuf⟩ := @drained_of_not_connection _ (pre.map fun x => (x.1, x.2.1)) hf
      (List.forall_mem_map.mpr fun _ hx => HeaderMap.ne_of_mem_before hes hx)
    refine ⟨hctx, _, ?_, .inr ⟨pre, v, vs, post, hes, hp, hf, hv, rfl, rfl⟩⟩
    rw [hbuf, encodeVersionStatusReason_eq, List.flatMap_map, List.append_assoc]

/-- **What a failed `encode_head` leaves**: the context exactly as it was (flags, disposition,
header cache, date), and the buffer with the bytes `Failure` names staged where the head goes:
nothing for a rejected status; the status line and the lines of the values before a `Connection`
value that is not visible ASCII, after the flat bytes or in the scratch buffer of a list buffer,
whose fragments stay as they were. -/
theorem encodeHead_err {ctx ctx' : Context} {parts : Parts} {size : ResponseBodySize}
    {buf buf' : WriteBuf} {e : ProtoError} (h : ctx.encodeHead parts size buf = .err e (ctx', buf')) :
    ctx' = ctx ∧ ∃ out, buf' = buf.stage out ∧ Failure ctx parts e out := by
  cases buf with
  | flat b =>
    cases hi : ctx.encodeHeadInner parts size b <;> simp [Context.encodeHead, hi, Ret.mapState] at h
    obtain ⟨rfl, rfl, rfl⟩ := h
    obtain ⟨hc, out, hb, hf⟩ := encodeHeadInner_err hi
    exact ⟨hc, out, by rw [hb]; rfl, hf⟩
  | list l =>
    rcases hi : ctx.encodeHeadInner parts size l.buf with _ | ⟨e', c, b⟩ | m <;>
      simp [Context.encodeHead, hi] at h
    obtain ⟨rfl, rfl, rfl⟩ := h
    obtain ⟨hc, out, hb, hf⟩ := encodeHeadInner_err hi
    exact ⟨hc, out, by simp only at hb; rw [hb]; rfl, hf⟩

/-- A byte `0xC8` in a `Connection` value: the status line is staged in the scratch buffer. -/
theorem encodeHead_err_connection :
    (Context.new ⟨ascii "Sun, 06 Nov 1994 08:49:37 GMT", by decide⟩).encodeHead
        ⟨.ok, .http11, ⟨[(.connection, ⟨[200], by decide⟩, [])], by decide⟩⟩ .none (.list ⟨[], []⟩) =
      .err (.parse .headerValue) (Context.new ⟨ascii "Sun, 06 Nov 1994 08:49:37 GMT", by decide⟩,
        .list ⟨[], ascii "HTTP/1.1 200 OK\r\n"⟩) ∧
    Context.new ⟨ascii "Sun, 06 Nov 1994 08:49:37 GMT", by decide⟩ =
        Context.new ⟨ascii "Sun, 06 Nov 1994 08:49:37 GMT", by decide⟩ ∧
      ∃ out, WriteBuf.list ⟨[], ascii "HTTP/1.1 200 OK\r\n"⟩ = (WriteBuf.list ⟨[], []⟩).stage out ∧
        Failure (Context.new ⟨ascii "Sun, 06 Nov 1994 08:49:37 GMT", by decide⟩)
          ⟨.ok, .http11, ⟨[(.connection, ⟨[200], by decide⟩, [])], by decide⟩⟩
          (.parse .headerValue) out :=
  ⟨rfl, @encodeHead_err _ _ _ .none _ _ _ rfl⟩

/-- A `Connection` value holding the byte `0xC8`, which `to_str` rejects, makes `encode_head`
fail after writing the status line: into the bytes a flat buffer queues, and into the scratch
buffer of a list buffer. -/
theorem connection_error_stages_status_line :
    (Context.new ⟨ascii "Sun, 06 Nov 1994 08:49:37 GMT", by decide⟩).encodeHead
        ⟨.ok, .http11, ⟨[(.connection, ⟨[200], by decide⟩, [])], by decide⟩⟩ .none (.flat []) =
      .err (.parse .headerValue) (Context.new ⟨ascii "Sun, 06 Nov 1994 08:49:37 GMT", by decide⟩,
        .flat (ascii "HTTP/1.1 200 OK\r\n")) ∧
    (Context.new ⟨ascii "Sun, 06 Nov 1994 08:49:37 GMT", by decide⟩).encodeHead
        ⟨.ok, .http11, ⟨[(.connection, ⟨[200], by decide⟩, [])], by decide⟩⟩ .none (.list ⟨[], []⟩) =
      .err (.parse .headerValue) (Context.new ⟨ascii "Sun, 06 Nov 1994 08:49:37 GMT", by decide⟩,
        .list ⟨[], ascii "HTTP/1.1 200 OK\r\n"⟩) :=
  ⟨rfl, rfl⟩

end ActixServerAlt.H1
