import ActixServerAlt.H1.Transfer

/-!
# The head encoder

`Context::encode_continue`, `Context::encode_head`, `Context::encode_head_inner` and
`encode_version_status_reason` in `h1/proto/encode.rs`.

`encode_head_inner` decides whether the framing header is skipped (or rejects a `1xx` status),
writes the status line, drains the header map through a loop (`encodeFields`, one pass per value
in `encodeField`), then writes the synthesized `connection`, framing and `date` lines. The loop
returns early through `?` on a `Connection` value that is not visible ASCII, leaving what it
wrote in the buffer, and panics on a value drained without a name. The debug assertions of the
source vanish in release builds and are not modelled; neither are the log lines.
-/

namespace ActixServerAlt.H1

namespace Context

/-- `Context::encode_continue`. -/
def encodeContinue (_ : Context) (buf : WriteBuf) : WriteBuf :=
  match buf with
  | .flat bytes => .flat (bytes ++ ascii "HTTP/1.1 100 Continue\r\n\r\n")
  | .list list => .list (list.buffer (.static (ascii "HTTP/1.1 100 Continue\r\n\r\n")))

end Context

/-- The version token of the status line: `HTTP/1.1` for every version but `HTTP/1.0`. -/
def versionToken : Version → Bytes
  | .http10 => ascii "HTTP/1.0 "
  | .http11 => ascii "HTTP/1.1 "
  | _ => ascii "HTTP/1.1 "

/-- `encode_version_status_reason`. -/
def encodeVersionStatusReason (buf : Bytes) (version : Version) (status : StatusCode) : Bytes :=
  if version = .http11 ∧ status = .ok then buf ++ ascii "HTTP/1.1 200 OK\r\n"
  else
    buf ++ versionToken version ++ status.asStr ++ ascii " " ++
      ascii (status.canonicalReason.getD "<none>") ++ ascii "\r\n"

/-- The first decision of `encode_head_inner`: whether the framing header is skipped; a `1xx`
status other than `101` is rejected. -/
def skipLenOf (ctx : Context) (status : StatusCode) : Except ProtoError Bool :=
  if status = .switchingProtocols then .ok false
  else if ctx.isConnectMethod && status.isSuccess then .ok true
  else if status.isInformational then .error (.parse .statusCode)
  else .ok false

/-- One pass of the token loop over a `Connection` value. -/
def scanToken (ctx : Context) (val : Bytes) : Context :=
  let val := trim val
  if eqIgnoreAsciiCase val (ascii "close") then ctx.setCtype .close
  else if eqIgnoreAsciiCase val (ascii "keep-alive") then ctx.setCtype .keepAlive
  else if eqIgnoreAsciiCase val (ascii "upgrade") then ctx.setCtype .upgrade
  else ctx

/-- The token loop over a `Connection` value: each recognised token sets the disposition. -/
def scanConnection (ctx : Context) (value : Bytes) : Context :=
  (value.splitOn 44).foldl scanToken ctx

/-! ### The `Connection` scan -/

/-- The last element of `l`, or `c` when `l` is empty. -/
def lastOr {α : Type} (c : α) (l : List α) : α := l.getLast?.getD c

@[simp] theorem lastOr_nil {α : Type} (c : α) : lastOr c [] = c := rfl

@[simp] theorem lastOr_cons {α : Type} (c a : α) (l : List α) : lastOr c (a :: l) = lastOr a l := by
  simp [lastOr, List.getLast?_cons]

theorem lastOr_append {α : Type} (c : α) (l l' : List α) :
    lastOr c (l ++ l') = lastOr (lastOr c l) l' := by
  induction l generalizing c with
  | nil => rfl
  | cons a l ih => simp [ih]

/-- The disposition a `Connection` token names, if it names one. -/
def tokenCtype (val : Bytes) : Option ConnectionType :=
  if eqIgnoreAsciiCase val (ascii "close") then some .close
  else if eqIgnoreAsciiCase val (ascii "keep-alive") then some .keepAlive
  else if eqIgnoreAsciiCase val (ascii "upgrade") then some .upgrade
  else none

/-- The dispositions the tokens of a `Connection` value name, in order. -/
def valueCtypes (value : Bytes) : List ConnectionType :=
  (value.splitOn 44).filterMap fun t => tokenCtype (trim t)

@[simp] theorem Context.setCtype_self (ctx : Context) : ctx.setCtype ctx.ctype = ctx := rfl

@[simp] theorem Context.setCtype_setCtype (ctx : Context) (c d : ConnectionType) :
    (ctx.setCtype c).setCtype d = ctx.setCtype d := rfl

theorem scanToken_eq (ctx : Context) (val : Bytes) :
    scanToken ctx val = ctx.setCtype (lastOr ctx.ctype ((tokenCtype (trim val)).toList)) := by
  unfold scanToken tokenCtype; dsimp only; split_ifs <;> rfl

/-- **The scan of one value.** The last recognised token wins. -/
theorem scanConnection_eq (ctx : Context) (value : Bytes) :
    scanConnection ctx value = ctx.setCtype (lastOr ctx.ctype (valueCtypes value)) := by
  unfold scanConnection valueCtypes
  induction value.splitOn 44 generalizing ctx with
  | nil => simp
  | cons t ts ih =>
    rw [List.foldl_cons, ih, scanToken_eq, List.filterMap_cons]
    cases tokenCtype (trim t) <;> simp

/-- What the header loop threads: the context, the buffer and the two skip flags. -/
structure HeadState where
  ctx : Context
  buf : Bytes
  skipLen : Bool
  skipDate : Bool

/-- The line a header value is written as. -/
def fieldLine (name : HeaderName) (value : HeaderValue) : Bytes :=
  name.bytes ++ ascii ": " ++ value.bytes ++ ascii "\r\n"

/-- The message of the `expect` on a drained header name. -/
def optionalNameMsg : String := "Handling optional header name is not implemented"

/-- One pass of the header loop of `encode_head_inner`. -/
def encodeField (s : HeadState) : Option HeaderName × HeaderValue → Ret ProtoError HeadState Unit
  | (none, _) => .panic optionalNameMsg
  | (some name, value) =>
    let put (s : HeadState) : HeadState := { s with buf := s.buf ++ fieldLine name value }
    if name = .contentLength then .ok () (put { s with skipLen := true })
    else if name = .transferEncoding then .ok () (put { s with skipLen := true })
    else if name = .connection ∧ s.ctx.isForceClose then .ok () s
    else if name = .connection then
      match value.toStr with
      | none => .err (.parse .headerValue) s
      | some str => .ok () (put { s with ctx := scanConnection s.ctx str })
    else if name = .date then .ok () (put { s with skipDate := true })
    else .ok () (put s)

/-- The header loop of `encode_head_inner`, over the drained values. -/
def encodeFields (s : HeadState) : List (Option HeaderName × HeaderValue) → Ret ProtoError HeadState Unit
  | [] => .ok () s
  | f :: fs =>
    match encodeField s f with
    | .ok () s => encodeFields s fs
    | .err e s => .err e s
    | .panic m => .panic m

/-! ### What the header loop does -/

/-- The `Connection` values among named fields. -/
def connectionValues (fs : List (HeaderName × HeaderValue)) : List Bytes :=
  (fs.filter fun f => f.1 = .connection).map fun f => f.2.bytes

/-- The fields the loop writes: all of them, or all but `Connection` under force-close. -/
def writtenFields (force : Bool) (fs : List (HeaderName × HeaderValue)) :
    List (HeaderName × HeaderValue) :=
  fs.filter fun f => !(force && f.1 = .connection)

/-- A field the loop reads without error: a `Connection` value is visible ASCII, unless the
connection is forced to close. -/
def Readable (force : Bool) (f : HeaderName × HeaderValue) : Prop :=
  force = false → f.1 = .connection → f.2.toStr = some f.2.bytes

instance (force : Bool) (f : HeaderName × HeaderValue) : Decidable (Readable force f) :=
  inferInstanceAs (Decidable (force = false → f.1 = .connection → f.2.toStr = some f.2.bytes))

namespace HeadState

/-- The state the header loop ends in after the named fields `fs`, when none of them fails. -/
def drained (s : HeadState) (fs : List (HeaderName × HeaderValue)) : HeadState where
  ctx := if s.ctx.isForceClose then s.ctx
    else s.ctx.setCtype (lastOr s.ctx.ctype ((connectionValues fs).flatMap valueCtypes))
  buf := s.buf ++ (writtenFields s.ctx.isForceClose fs).flatMap fun f => fieldLine f.1 f.2
  skipLen := s.skipLen || fs.any fun f => f.1 = .contentLength || f.1 = .transferEncoding
  skipDate := s.skipDate || fs.any fun f => f.1 = .date

@[simp] theorem drained_nil (s : HeadState) : s.drained [] = s := by
  obtain ⟨ctx, buf, sl, sd⟩ := s
  simp only [drained, writtenFields, connectionValues]
  split <;> simp

@[simp] theorem drained_isForceClose (s : HeadState) (fs : List (HeaderName × HeaderValue)) :
    (s.drained fs).ctx.isForceClose = s.ctx.isForceClose := by
  unfold drained; split <;> simp

theorem drained_append (s : HeadState) (fs gs : List (HeaderName × HeaderValue)) :
    s.drained (fs ++ gs) = (s.drained fs).drained gs := by
  by_cases hf : s.ctx.isForceClose = true
  · simp [drained, hf, writtenFields, connectionValues, Bool.or_assoc]
  · simp [drained, hf, writtenFields, connectionValues, Bool.or_assoc, lastOr_append]

end HeadState

open HeadState

/-- **One pass of the loop.** -/
theorem encodeField_some (s : HeadState) (n : HeaderName) (v : HeaderValue)
    (h : Readable s.ctx.isForceClose (n, v)) :
    encodeField s (some n, v) = .ok () (s.drained [(n, v)]) := by
  unfold encodeField
  by_cases h1 : n = .contentLength
  · simp +decide [h1, drained, writtenFields, connectionValues]
  by_cases h2 : n = .transferEncoding
  · simp +decide [h1, h2, drained, writtenFields, connectionValues]
  by_cases h3 : n = .connection
  · subst h3
    by_cases hf : s.ctx.isForceClose
    · simp +decide [hf, drained, writtenFields, connectionValues]
    · simp +decide [h (by simpa using hf) rfl, hf, drained, writtenFields, connectionValues, scanConnection_eq]
  by_cases h4 : n = .date <;> simp +decide [h1, h2, h3, h4, drained, writtenFields, connectionValues]

/-- **The loop over named fields.** -/
theorem encodeFields_named (s : HeadState) (fs : List (HeaderName × HeaderValue))
    (h : ∀ f ∈ fs, Readable s.ctx.isForceClose f) :
    encodeFields s (fs.map fun f => (some f.1, f.2)) = .ok () (s.drained fs) := by
  induction fs generalizing s with
  | nil => simp [encodeFields, drained, writtenFields, connectionValues]
  | cons f fs ih =>
    have h1 := encodeField_some s f.1 f.2 (h f (List.mem_cons_self _ _))
    simp only [List.map_cons, encodeFields, h1]
    rw [ih (s.drained [f]) (fun g hg => by simpa using h g (List.mem_cons_of_mem _ hg)),
      ← drained_append, List.singleton_append]

/-- **What a pass over a named value can do**: go on as `encodeField_some` says, or stop with
an error on an unreadable `Connection` value, leaving the state as it was. -/
theorem encodeField_some_cases (s : HeadState) (n : HeaderName) (v : HeaderValue) :
    encodeField s (some n, v) = .ok () (s.drained [(n, v)]) ∧ Readable s.ctx.isForceClose (n, v) ∨
      encodeField s (some n, v) = .err (.parse .headerValue) s ∧
        ¬ Readable s.ctx.isForceClose (n, v) := by
  by_cases h : Readable s.ctx.isForceClose (n, v)
  · exact .inl ⟨encodeField_some s n v h, h⟩
  · refine .inr ⟨?_, h⟩
    simp only [Readable, Classical.not_imp] at h
    obtain ⟨hf, rfl, ht⟩ := h
    simp +decide [encodeField, hf, HeaderValue.toStr_eq_none ht]

/-- A loop over named values that succeeds read every value and ends as `encodeFields_named`
says. -/
theorem encodeFields_named_ok {s s' : HeadState} {fs : List (HeaderName × HeaderValue)}
    (h : encodeFields s (fs.map fun f => (some f.1, f.2)) = .ok () s') :
    (∀ f ∈ fs, Readable s.ctx.isForceClose f) ∧ s' = s.drained fs := by
  induction fs generalizing s with
  | nil => cases h; simp
  | cons f fs ih =>
    rcases encodeField_some_cases s f.1 f.2 with ⟨he, hr⟩ | ⟨he, -⟩
    · simp only [List.map_cons, encodeFields, he] at h
      obtain ⟨hrs, rfl⟩ := ih h
      rw [drained_isForceClose] at hrs
      exact ⟨List.forall_mem_cons.mpr ⟨hr, hrs⟩, by rw [← drained_append]; rfl⟩
    · simp [encodeFields, he] at h

/-- A loop that succeeds met a name with every value. -/
theorem encodeFields_ok_named {s s' : HeadState} {fs : List (Option HeaderName × HeaderValue)}
    (h : encodeFields s fs = .ok () s') : ∀ f ∈ fs, f.1.isSome := by
  induction fs generalizing s with
  | nil => simp
  | cons f fs ih =>
    obtain ⟨_ | n, v⟩ := f
    · simp [encodeFields, encodeField] at h
    · simp only [encodeFields] at h
      split at h
      · exact List.forall_mem_cons.mpr ⟨rfl, ih h⟩
      all_goals cases h

/-- The loop over named values never panics. -/
theorem encodeFields_named_ne_panic (s : HeadState) (fs : List (HeaderName × HeaderValue))
    (msg : String) : encodeFields s (fs.map fun f => (some f.1, f.2)) ≠ .panic msg := by
  induction fs generalizing s with
  | nil => simp [encodeFields]
  | cons f fs ih =>
    rcases encodeField_some_cases s f.1 f.2 with ⟨he, -⟩ | ⟨he, -⟩ <;>
      simp [encodeFields, he, ih]

/-- The framing line for a size hint. -/
def framingLine : ResponseBodySize → Bytes
  | .none => []
  | .stream => ascii "transfer-encoding: chunked\r\n"
  | .sized n => ascii "content-length: " ++ decimal n.toNat ++ ascii "\r\n"

namespace Context

/-- `Context::encode_head_inner`. -/
def encodeHeadInner (ctx : Context) (parts : Parts) (size : ResponseBodySize) (buf : Bytes) :
    Ret ProtoError (Context × Bytes) Unit :=
  match skipLenOf ctx parts.status with
  | .error e => .err e (ctx, buf)
  | .ok skipLen =>
    let buf := encodeVersionStatusReason buf parts.version parts.status
    match encodeFields ⟨ctx, buf, skipLen, false⟩ parts.headers.drain with
    | .err e s => .err e (s.ctx, s.buf)
    | .panic m => .panic m
    | .ok () s =>
      let buf := if s.ctx.isForceClose then s.buf ++ ascii "connection: close\r\n" else s.buf
      let buf := if !s.skipLen then buf ++ framingLine size else buf
      let buf := if !s.skipDate then buf ++ ascii "date: " ++ s.ctx.date.bytes ++ ascii "\r\n\r\n"
        else buf ++ ascii "\r\n"
      .ok () ({ s.ctx with headerCache := some .empty }, buf)

/-- `Context::encode_head`: in list mode the head is staged in the scratch buffer and split off
as one fragment. -/
def encodeHead (ctx : Context) (parts : Parts) (size : ResponseBodySize) (buf : WriteBuf) :
    Ret ProtoError (Context × WriteBuf) Unit :=
  match buf with
  | .list list =>
    match ctx.encodeHeadInner parts size list.buf with
    | .ok () (ctx, b) => .ok () (ctx, .list ⟨list.list ++ [.buf b], []⟩)
    | .err e (ctx, b) => .err e (ctx, .list { list with buf := b })
    | .panic m => .panic m
  | .flat bytes => (ctx.encodeHeadInner parts size bytes).mapState fun r => (r.1, .flat r.2)

end Context

/-! ### What the head encoder writes -/

/-- The status line as the general path of `encode_version_status_reason` writes it. -/
def statusLine (version : Version) (status : StatusCode) : Bytes :=
  versionToken version ++ status.asStr ++ ascii " " ++
    ascii (status.canonicalReason.getD "<none>") ++ ascii "\r\n"

/-- The `HTTP/1.1 200` shortcut writes what the general path would. -/
theorem encodeVersionStatusReason_eq (buf : Bytes) (version : Version) (status : StatusCode) :
    encodeVersionStatusReason buf version status = buf ++ statusLine version status := by
  unfold encodeVersionStatusReason
  split_ifs with h
  · obtain ⟨rfl, rfl⟩ := h; rfl
  · simp [statusLine]

/-- What `encode_head_inner` writes after the header loop, down to the empty line. -/
def headTail (force skipLen skipDate : Bool) (size : ResponseBodySize) (date : HeaderValue) :
    Bytes :=
  (if force then ascii "connection: close\r\n" else []) ++
    (if skipLen then [] else framingLine size) ++
    (if skipDate then [] else ascii "date: " ++ date.bytes ++ ascii "\r\n") ++ ascii "\r\n"

/-- The framing header is skipped: by the status, or by a caller's framing field. -/
def skipsLen (skipLen : Bool) (m : HeaderMap) : Bool :=
  skipLen || m.fields.any fun f => f.1 = .contentLength || f.1 = .transferEncoding

/-- The map holds a `date` value. -/
def hasDate (m : HeaderMap) : Bool := m.fields.any fun f => f.1 = .date

/-- The head `encode_head_inner` writes for `parts` when it succeeds. -/
def headOf (ctx : Context) (parts : Parts) (skipLen : Bool) (size : ResponseBodySize) : Bytes :=
  statusLine parts.version parts.status ++
    (writtenFields ctx.isForceClose parts.headers.fields).flatMap (fun f => fieldLine f.1 f.2) ++
    headTail ctx.isForceClose (skipsLen skipLen parts.headers) (hasDate parts.headers) size ctx.date

/-- The disposition `encode_head_inner` leaves: unchanged under force-close, otherwise the last
token recognised among the `Connection` values. -/
def ctypeAfter (ctx : Context) (m : HeaderMap) : ConnectionType :=
  if ctx.isForceClose then ctx.ctype
  else lastOr ctx.ctype ((connectionValues m.fields).flatMap valueCtypes)

/-- The context `encode_head_inner` leaves when it succeeds. -/
def ctxAfterHead (ctx : Context) (m : HeaderMap) : Context :=
  { ctx with ctype := ctypeAfter ctx m, headerCache := some .empty }

/-- **The head encoder on a map with one value per name.** -/
theorem encodeHeadInner_eq_ok {ctx : Context} {parts : Parts} {skipLen : Bool}
    (hs : skipLenOf ctx parts.status = .ok skipLen) (hm : parts.headers.SingleValued)
    (hr : ∀ f ∈ parts.headers.fields, Readable ctx.isForceClose f) (size : ResponseBodySize)
    (buf : Bytes) :
    ctx.encodeHeadInner parts size buf =
      .ok () (ctxAfterHead ctx parts.headers, buf ++ headOf ctx parts skipLen size) := by
  unfold Context.encodeHeadInner
  rw [hs, encodeVersionStatusReason_eq, HeaderMap.drain_of_singleValued hm]
  dsimp only
  rw [encodeFields_named ⟨ctx, _, skipLen, false⟩ _ hr]
  set d := (HeadState.mk ctx (buf ++ statusLine parts.version parts.status) skipLen false).drained
    parts.headers.fields
  have hf : d.ctx.isForceClose = ctx.isForceClose := drained_isForceClose _ _
  have hl : d.skipLen = skipsLen skipLen parts.headers := rfl
  have hd : d.skipDate = hasDate parts.headers := by simp [d, drained, hasDate]
  have hb : d.buf = buf ++ statusLine parts.version parts.status ++
      (writtenFields ctx.isForceClose parts.headers.fields).flatMap (fun f => fieldLine f.1 f.2) :=
    rfl
  have hc : Context.mk d.ctx.state d.ctx.ctype (some .empty) d.ctx.date =
      ctxAfterHead ctx parts.headers := by
    simp only [d, drained, ctxAfterHead, ctypeAfter]; split <;> rfl
  have hdate : d.ctx.date = ctx.date := by simp only [d, drained]; split <;> rfl
  simp only [hc]
  simp only [hf, hl, hd, hb, hdate, headOf, headTail]
  cases ctx.isForceClose <;> cases skipsLen skipLen parts.headers <;>
    cases hasDate parts.headers <;> simp

/-- **What a successful `encode_head_inner` did**: it accepted the status, the map held one
value per name, every value was read, and the context and bytes are as `encodeHeadInner_eq_ok`
says. -/
theorem encodeHeadInner_ok {ctx : Context} {parts : Parts} {size : ResponseBodySize} {buf : Bytes}
    {r : Context × Bytes} (h : ctx.encodeHeadInner parts size buf = .ok () r) :
    ∃ skipLen, skipLenOf ctx parts.status = .ok skipLen ∧ parts.headers.SingleValued ∧
      (∀ f ∈ parts.headers.fields, Readable ctx.isForceClose f) ∧
      r = (ctxAfterHead ctx parts.headers, buf ++ headOf ctx parts skipLen size) := by
  obtain ⟨skipLen, hs, hm, hr⟩ : ∃ skipLen, skipLenOf ctx parts.status = .ok skipLen ∧
      parts.headers.SingleValued ∧ ∀ f ∈ parts.headers.fields, Readable ctx.isForceClose f := by
    unfold Context.encodeHeadInner at h
    split at h
    · cases h
    · rename_i skipLen hs
      dsimp only at h
      cases hfs : encodeFields ⟨ctx, encodeVersionStatusReason buf parts.version parts.status,
          skipLen, false⟩ parts.headers.drain with
      | ok _ s =>
        have hm := HeaderMap.singleValued_of_drain (encodeFields_ok_named hfs)
        rw [HeaderMap.drain_of_singleValued hm] at hfs
        exact ⟨skipLen, hs, hm, (encodeFields_named_ok hfs).1⟩
      | err e s => rw [hfs] at h; cases h
      | panic m => rw [hfs] at h; cases h
  rw [encodeHeadInner_eq_ok hs hm hr] at h
  cases h
  exact ⟨skipLen, hs, hm, hr, rfl⟩

/-- `encode_head` stages what the inner encoder writes and splits it off. -/
theorem encodeHead_of_inner {ctx c : Context} {parts : Parts} {size : ResponseBodySize}
    {out : Bytes} (h : ∀ b, ctx.encodeHeadInner parts size b = .ok () (c, b ++ out))
    (buf : WriteBuf) :
    ∃ buf', ctx.encodeHead parts size buf = .ok () (c, buf') ∧ buf.Flushes out buf' := by
  cases buf with
  | flat b =>
    exact ⟨.flat (b ++ out), by simp [Context.encodeHead, h, Ret.mapState],
      by simp [WriteBuf.Flushes, WriteBuf.scratch]⟩
  | list l =>
    exact ⟨.list ⟨l.list ++ [.buf (l.buf ++ out)], []⟩, by simp [Context.encodeHead, h],
      by simp [WriteBuf.Flushes, WriteBuf.queued, WriteBuf.scratch]⟩

/-- **The head encoder on a write buffer**, when the status is accepted, the map holds one
value per name and every value can be read. -/
theorem encodeHead_eq_ok {ctx : Context} {parts : Parts} {skipLen : Bool}
    (hs : skipLenOf ctx parts.status = .ok skipLen) (hm : parts.headers.SingleValued)
    (hr : ∀ f ∈ parts.headers.fields, Readable ctx.isForceClose f) (size : ResponseBodySize)
    (buf : WriteBuf) :
    ∃ buf', ctx.encodeHead parts size buf = .ok () (ctxAfterHead ctx parts.headers, buf') ∧
      buf.Flushes (headOf ctx parts skipLen size) buf' :=
  encodeHead_of_inner (encodeHeadInner_eq_ok hs hm hr size) buf

/-- **What a successful `encode_head` did.** -/
theorem encodeHead_ok {ctx ctx' : Context} {parts : Parts} {size : ResponseBodySize}
    {buf buf' : WriteBuf} (h : ctx.encodeHead parts size buf = .ok () (ctx', buf')) :
    ∃ skipLen, skipLenOf ctx parts.status = .ok skipLen ∧ parts.headers.SingleValued ∧
      (∀ f ∈ parts.headers.fields, Readable ctx.isForceClose f) ∧
      ctx' = ctxAfterHead ctx parts.headers ∧ buf.Flushes (headOf ctx parts skipLen size) buf' := by
  obtain ⟨b, r, hi⟩ : ∃ b r, ctx.encodeHeadInner parts size b = .ok () r := by
    cases buf with
    | flat b =>
      refine ⟨b, ?_⟩
      cases hi : ctx.encodeHeadInner parts size b <;> simp [Context.encodeHead, hi, Ret.mapState] at h ⊢
    | list l =>
      refine ⟨l.buf, ?_⟩
      cases hi : ctx.encodeHeadInner parts size l.buf <;> simp [Context.encodeHead, hi] at h ⊢
  obtain ⟨skipLen, hs, hm, hr, -⟩ := encodeHeadInner_ok hi
  obtain ⟨b', hb', hf⟩ := encodeHead_eq_ok hs hm hr size buf
  rw [hb'] at h
  cases h
  exact ⟨skipLen, hs, hm, hr, rfl, hf⟩

/-- On a map with several values under one name, the loop panics at the second value, unless
it returns an error before. -/
theorem encodeFields_panic (s : HeadState) (m : HeaderMap) (hm : ¬ m.SingleValued)
    (hr : ∀ f ∈ m.fields, Readable s.ctx.isForceClose f) :
    encodeFields s m.drain = .panic optionalNameMsg := by
  obtain ⟨es, hn⟩ := m
  simp only [HeaderMap.SingleValued, HeaderMap.drain, HeaderMap.fields] at hm hr ⊢
  clear hn
  induction es generalizing s with
  | nil => simp at hm
  | cons e es ih =>
    obtain ⟨n, v, vs⟩ := e
    have h1 := encodeField_some s n v
      (hr _ (List.mem_flatMap.mpr ⟨_, List.mem_cons_self _ _, List.mem_cons_self _ _⟩))
    simp only [List.flatMap_cons, List.cons_append, encodeFields, h1]
    cases vs with
    | cons w ws => rfl
    | nil =>
      have hm' : ¬ ∀ e ∈ es, e.2.2 = [] := fun h => hm fun e he => by
        rcases List.mem_cons.mp he with rfl | he
        · rfl
        · exact h e he
      refine ih (s.drained [(n, v)]) hm' fun f hf => ?_
      obtain ⟨e, he, hfe⟩ := List.mem_flatMap.mp hf
      rw [drained_isForceClose]
      exact hr f (List.mem_flatMap.mpr ⟨e, List.mem_cons_of_mem _ he, hfe⟩)

/-- On a map with one value per name, `encode_head_inner` never panics. -/
theorem encodeHeadInner_ne_panic {ctx : Context} {parts : Parts} (hm : parts.headers.SingleValued)
    (size : ResponseBodySize) (buf : Bytes) (msg : String) :
    ctx.encodeHeadInner parts size buf ≠ .panic msg := by
  unfold Context.encodeHeadInner
  split
  · simp
  · dsimp only
    rw [HeaderMap.drain_of_singleValued hm]
    have := encodeFields_named_ne_panic ⟨ctx, encodeVersionStatusReason buf parts.version
      parts.status, ‹_›, false⟩ parts.headers.fields msg
    split <;> simp_all

/-- On a map with one value per name, `encode_head` never panics. -/
theorem encodeHead_ne_panic {ctx : Context} {parts : Parts} (hm : parts.headers.SingleValued)
    (size : ResponseBodySize) (buf : WriteBuf) (msg : String) :
    ctx.encodeHead parts size buf ≠ .panic msg := by
  have := @encodeHeadInner_ne_panic ctx parts hm size
  cases buf <;> simp only [Context.encodeHead, Ret.mapState] <;> split <;> simp_all

/-- On a map with several values under one name, `encode_head` panics once it accepted the
status, unless it stops at an unreadable value first. -/
theorem encodeHead_panic {ctx : Context} {parts : Parts} {skipLen : Bool}
    (hs : skipLenOf ctx parts.status = .ok skipLen) (hm : ¬ parts.headers.SingleValued)
    (hr : ∀ f ∈ parts.headers.fields, Readable ctx.isForceClose f) (size : ResponseBodySize)
    (buf : WriteBuf) : ctx.encodeHead parts size buf = .panic optionalNameMsg := by
  have hi : ∀ b, ctx.encodeHeadInner parts size b = .panic optionalNameMsg := fun b => by
    unfold Context.encodeHeadInner
    rw [hs]; dsimp only
    rw [encodeFields_panic ⟨ctx, _, skipLen, false⟩ _ hm hr]
  cases buf <;> simp [Context.encodeHead, hi, Ret.mapState]

/-! ### The head encoder only appends -/

/-- The state with `pre` written before its buffer. -/
def HeadState.prepend (pre : Bytes) (s : HeadState) : HeadState := { s with buf := pre ++ s.buf }

theorem encodeField_prepend (pre : Bytes) (s : HeadState) (f : Option HeaderName × HeaderValue) :
    encodeField (s.prepend pre) f = (encodeField s f).mapState (HeadState.prepend pre) := by
  obtain ⟨_ | n, v⟩ := f
  · rfl
  · unfold encodeField
    by_cases h1 : n = .contentLength
    · simp +decide [h1, Ret.mapState, HeadState.prepend]
    by_cases h2 : n = .transferEncoding
    · simp +decide [h1, h2, Ret.mapState, HeadState.prepend]
    by_cases h3 : n = .connection
    · cases hv : v.toStr <;> by_cases hf : s.ctx.isForceClose <;>
        simp +decide [h1, h2, h3, hv, hf, Ret.mapState, HeadState.prepend]
    by_cases h4 : n = .date <;> simp +decide [h1, h2, h3, h4, Ret.mapState, HeadState.prepend]

theorem encodeFields_prepend (pre : Bytes) (s : HeadState)
    (fs : List (Option HeaderName × HeaderValue)) :
    encodeFields (s.prepend pre) fs = (encodeFields s fs).mapState (HeadState.prepend pre) := by
  induction fs generalizing s with
  | nil => rfl
  | cons f fs ih =>
    simp only [encodeFields, encodeField_prepend]
    cases encodeField s f <;> simp [Ret.mapState, ih]

/-- **The head encoder only appends**: what it does after `pre` is what it does on its own, with
`pre` before the bytes. -/
theorem encodeHeadInner_append (ctx : Context) (parts : Parts) (size : ResponseBodySize)
    (pre buf : Bytes) :
    ctx.encodeHeadInner parts size (pre ++ buf) =
      (ctx.encodeHeadInner parts size buf).mapState fun r => (r.1, pre ++ r.2) := by
  unfold Context.encodeHeadInner
  split
  · rfl
  · rename_i skipLen _
    dsimp only
    rw [encodeVersionStatusReason_eq, encodeVersionStatusReason_eq, List.append_assoc,
      show (HeadState.mk ctx (pre ++ (buf ++ statusLine parts.version parts.status)) skipLen false) =
        (HeadState.mk ctx (buf ++ statusLine parts.version parts.status) skipLen false).prepend pre
        from rfl, encodeFields_prepend]
    cases encodeFields _ _ with
    | ok _ s =>
      simp only [Ret.mapState, HeadState.prepend]
      cases s.ctx.isForceClose <;> cases s.skipLen <;> cases s.skipDate <;> simp
    | err e s => rfl
    | panic m => rfl

end ActixServerAlt.H1
