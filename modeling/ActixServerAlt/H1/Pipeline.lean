import ActixServerAlt.H1.Response

/-!
# Responses one after another on a kept-alive connection

The context lives as long as the connection, and every request decoded on it starts a cycle:
`reset`, then the flags the request sets, then the response: `encode_continue` when the request
expects it, `encode_head`, and the body's chunks and `encode_eof` on the encoder
`ResponseBody::encoder` picks for the disposition the head leaves. The dispatcher that makes
these calls is not in the source; the order of the calls is the one the spec gives.

* `Cycle`, `Cycle.serve`, `serveCycles`: one cycle, and cycles one after another, stopping at a
  panic or an error, and after a response that does not keep the connection open;
* `Cycle.Servable`, `Cycle.KeepsAlive`, `Cycle.responses`: when a cycle's response delimits
  itself, when it keeps the connection open, and what a client reads for it, all read off the
  context the response is encoded with;
* `serve_pipelined`: the bytes of any number of such cycles, each but the last keeping the
  connection open, are read by an RFC 7230 client as exactly their responses, in order: none runs
  into the next;
* `Cycle.Switches`, `serve_switch`: a last cycle that answers `101 Switching Protocols` under the
  disposition `Upgrade` hands the connection over: the client reads the responses up to the `101`,
  and every byte after it is the body's, raw.
-/

namespace ActixServerAlt.H1

open TransferEncoding Rfc7230

/-- The setter the request side calls for a flag. -/
def ContextState.Flag.update : ContextState.Flag → Context.Update
  | .expect => .setExpectHeader
  | .connect => .setConnectMethod
  | .forceClose => .setForceClose

/-- Modelled from the spec: one request-response cycle as the connection's encoder sees it, the
flags the request sets and the response the service returns. -/
structure Cycle where
  flags : List ContextState.Flag
  parts : Parts
  body : ResponseBody

namespace Cycle

/-- The context the response is encoded with: `reset` once the request is decoded, then the
flags the request sets. -/
def start (cy : Cycle) (ctx : Context) : Context :=
  (cy.flags.map ContextState.Flag.update).foldl Context.update ctx.reset

/-- One cycle: `encode_continue` when the request expects it, `encode_head`, then the body's
calls on the encoder picked for the disposition after the head; `none` when a call panics or
returns an error. -/
def serve (cy : Cycle) (ctx : Context) (buf : WriteBuf) : Option (Context × WriteBuf) :=
  let ctx := cy.start ctx
  let buf := if ctx.isExpectHeader then ctx.encodeContinue buf else buf
  match ctx.encodeHead cy.parts cy.body.size buf with
  | .ok () (ctx', buf') =>
    ((cy.body.encoder ctx'.ctype).run buf' cy.body.calls).bind fun r =>
      if r.1.all Reply.isOk then some (ctx', r.2.2) else none
  | _ => none

end Cycle

/-- The connection stays open after the response: the head left the disposition `KeepAlive` and
the request did not force a close, which writes `connection: close` whatever the disposition. -/
def Context.keepsAlive (ctx : Context) : Bool :=
  ctx.ctype == .keepAlive && !ctx.isForceClose

/-- Cycles one after another on one connection: the next request is read only while the response
before it keeps the connection open. -/
def serveCycles : List Cycle → Context → WriteBuf → Option (Context × WriteBuf)
  | [], ctx, buf => some (ctx, buf)
  | cy :: cys, ctx, buf => (cy.serve ctx buf).bind fun r =>
    if r.1.keepsAlive then serveCycles cys r.1 r.2 else some r

/-- The interim response `encode_continue` writes, as a client reads it. -/
def continueResponse : Response := ⟨100, [], []⟩

namespace Cycle

/-- The cycle's response delimits itself, read at the context it is encoded with: no `CONNECT`
flag, a status that is not `1xx`, a map with one value per name, no framing field and readable
`Connection` values, and a body whose end a reader finds under the status and the disposition the
head leaves. -/
def Servable (cy : Cycle) (ctx : Context) : Prop :=
  (cy.start ctx).isConnectMethod = false ∧ 200 ≤ cy.parts.status.code ∧ NoFraming cy.parts.headers ∧
    cy.parts.headers.SingleValued ∧
    (∀ f ∈ cy.parts.headers.fields, Readable (cy.start ctx).isForceClose f) ∧
    cy.body.Delimited cy.parts.status.code (ctypeAfter (cy.start ctx) cy.parts.headers)

instance (cy : Cycle) (ctx : Context) : Decidable (cy.Servable ctx) :=
  inferInstanceAs (Decidable ((cy.start ctx).isConnectMethod = false ∧ 200 ≤ cy.parts.status.code ∧
    NoFraming cy.parts.headers ∧ cy.parts.headers.SingleValued ∧
    (∀ f ∈ cy.parts.headers.fields, Readable (cy.start ctx).isForceClose f) ∧
    cy.body.Delimited cy.parts.status.code (ctypeAfter (cy.start ctx) cy.parts.headers)))

/-- The cycle's response keeps the connection open, read at the context it is encoded with. -/
def KeepsAlive (cy : Cycle) (ctx : Context) : Prop :=
  (ctxAfterHead (cy.start ctx) cy.parts.headers).keepsAlive = true

instance (cy : Cycle) (ctx : Context) : Decidable (cy.KeepsAlive ctx) :=
  inferInstanceAs (Decidable ((ctxAfterHead (cy.start ctx) cy.parts.headers).keepsAlive = true))

/-- What a client reads for the cycle: `100 Continue` when the request expected it, then the
response with its status, the fields of its head and its body. -/
def responses (cy : Cycle) (ctx : Context) : List Response :=
  (if (cy.start ctx).isExpectHeader then [continueResponse] else []) ++
    [⟨cy.parts.status.code, (headFields (cy.start ctx) cy.parts false cy.body.size).map
      (fun f => (f.1.bytes, dropOws f.2)), cy.body.payload⟩]

/-! ### The context a cycle starts from -/

theorem update_headerCache (c : Context) (x : Option HeaderMap) (u : Context.Update) :
    ({ c with headerCache := x } : Context).update u = { c.update u with headerCache := x } := by
  cases u <;> rfl

/-- The context a cycle starts from depends on the one before only through its date and header
cache: `reset` clears the flags and the disposition. -/
theorem start_eq (cy : Cycle) {ctx ctx' : Context} (hd : ctx'.date = ctx.date) :
    cy.start ctx' = { cy.start ctx with headerCache := ctx'.headerCache } := by
  have hr : ctx'.reset = { ctx.reset with headerCache := ctx'.headerCache } := by
    cases ctx; cases ctx'; cases hd; rfl
  unfold start
  rw [hr]
  generalize ctx.reset = c
  induction cy.flags.map ContextState.Flag.update generalizing c with
  | nil => rfl
  | cons u us ih => rw [List.foldl_cons, List.foldl_cons, update_headerCache, ih]

theorem servable_congr (cy : Cycle) {ctx ctx' : Context} (hd : ctx'.date = ctx.date) :
    cy.Servable ctx' ↔ cy.Servable ctx := by
  rw [Servable, Servable, start_eq cy hd]
  rfl

theorem keepsAlive_congr (cy : Cycle) {ctx ctx' : Context} (hd : ctx'.date = ctx.date) :
    cy.KeepsAlive ctx' ↔ cy.KeepsAlive ctx := by
  rw [KeepsAlive, KeepsAlive, start_eq cy hd]
  rfl

theorem responses_congr (cy : Cycle) {ctx ctx' : Context} (hd : ctx'.date = ctx.date) :
    cy.responses ctx' = cy.responses ctx := by
  rw [responses, responses, start_eq cy hd]
  rfl

theorem foldl_update_date (us : List Context.Update) (c : Context) :
    (us.foldl Context.update c).date = c.date := by
  induction us generalizing c with
  | nil => rfl
  | cons u us ih => rw [List.foldl_cons, ih]; cases u <;> rfl

theorem date_start (cy : Cycle) (ctx : Context) : (cy.start ctx).date = ctx.date :=
  foldl_update_date _ ctx.reset

end Cycle

/-! ### One cycle -/

theorem skipLenOf_of_body {ctx : Context} {status : StatusCode} (hc : ctx.isConnectMethod = false)
    (hs : 200 ≤ status.code) : skipLenOf ctx status = .ok false := by
  have h101 : status ≠ .switchingProtocols := fun h => by
    rw [h] at hs; exact absurd hs (by decide)
  have h1xx : status.isInformational = false := by
    simpa [StatusCode.isInformational] using hs
  simp [skipLenOf, h101, hc, h1xx]

theorem encodeContinue_appends (ctx : Context) (buf : WriteBuf) :
    buf.Appends (ascii "HTTP/1.1 100 Continue\r\n\r\n") (ctx.encodeContinue buf) := by
  cases buf with
  | flat b => exact WriteBuf.appends_flat b _
  | list l => exact WriteBuf.appends_buffer l (.static _)

theorem readsAs_continue : ReadsAs (ascii "HTTP/1.1 100 Continue\r\n\r\n") [continueResponse] :=
  ReadsAs.single (by decide) fun _ => rfl

theorem headOf_ne_nil (ctx : Context) (parts : Parts) (skipLen : Bool) (size : ResponseBodySize) :
    headOf ctx parts skipLen size ≠ [] := by
  simp [headOf, statusLine_eq, crlf]

/-- The `100 Continue` a cycle writes before its head when the request expected it. -/
theorem Cycle.interim_spec (cy : Cycle) (ctx : Context) (buf : WriteBuf) :
    ∃ pre, buf.Appends pre (if (cy.start ctx).isExpectHeader then (cy.start ctx).encodeContinue buf
        else buf) ∧
      ReadsAs pre (if (cy.start ctx).isExpectHeader then [continueResponse] else []) := by
  split_ifs
  · exact ⟨_, encodeContinue_appends _ buf, readsAs_continue⟩
  · exact ⟨[], WriteBuf.Appends.refl buf, ReadsAs.nil⟩

/-- **One cycle.** From a buffer with nothing staged, a self-delimiting cycle returns without a
panic or an error, leaves the context `encode_head` leaves, and queues bytes that a client reads
as the cycle's responses, whatever follows them. -/
theorem Cycle.serve_spec {cy : Cycle} {ctx : Context} (h : cy.Servable ctx) {buf : WriteBuf}
    (hb : buf.scratch.getD [] = []) :
    ∃ buf' out, cy.serve ctx buf = some (ctxAfterHead (cy.start ctx) cy.parts.headers, buf') ∧
      buf.Appends out buf' ∧ ReadsAs out (cy.responses ctx) := by
  obtain ⟨hc, hs, hnf, hm, hr, hd⟩ := h
  obtain ⟨pre, hpre, hrpre⟩ := cy.interim_spec ctx buf
  obtain ⟨buf₂, he, hf⟩ := encodeHead_eq_ok (skipLenOf_of_body hc hs) hm hr cy.body.size
    (if (cy.start ctx).isExpectHeader then (cy.start ctx).encodeContinue buf else buf)
  obtain ⟨rs, te, buf₃, body, hrun, hok, ha, hread⟩ := ResponseBody.run_delimited hd buf₂
  refine ⟨buf₃, pre ++ (headOf (cy.start ctx) cy.parts false cy.body.size ++ body), ?_,
    hpre.trans ((hf.appends (hpre.2 ▸ hb)).trans ha), hrpre.append (ReadsAs.single ?_ fun rest => ?_)⟩
  · simp only [Cycle.serve, he, ctxAfterHead, hrun, Option.some_bind, hok, if_true]
  · exact List.append_ne_nil_of_left_ne_nil (headOf_ne_nil _ _ _ _) _
  · exact parseResponse_head_body hs hnf hread rest

/-! ### Cycles one after another -/

theorem date_ctxAfterHead (ctx : Context) (m : HeaderMap) : (ctxAfterHead ctx m).date = ctx.date :=
  rfl

theorem serveCycles_singleton (cy : Cycle) (ctx : Context) (buf : WriteBuf) :
    serveCycles [cy] ctx buf = cy.serve ctx buf := by
  simp only [serveCycles]
  cases cy.serve ctx buf <;> simp

/-- Cycles served one after another, a kept-alive response before each but the first. -/
theorem serveCycles_reads (cys : List Cycle) {ctx : Context} {buf : WriteBuf}
    (hb : buf.scratch.getD [] = []) (h : ∀ cy ∈ cys, cy.Servable ctx)
    (hk : ∀ cy ∈ cys.dropLast, cy.KeepsAlive ctx) :
    ∃ ctx' buf' out, serveCycles cys ctx buf = some (ctx', buf') ∧ ctx'.date = ctx.date ∧
      ((∀ cy ∈ cys, cy.KeepsAlive ctx) → cys = [] ∨ ctx'.keepsAlive = true) ∧
      buf.Appends out buf' ∧ ReadsAs out (cys.flatMap fun cy => cy.responses ctx) := by
  induction cys generalizing ctx buf with
  | nil => exact ⟨ctx, buf, [], rfl, rfl, fun _ => .inl rfl, WriteBuf.Appends.refl buf, ReadsAs.nil⟩
  | cons cy cys ih =>
    obtain ⟨buf₁, out₁, hs, ha₁, hr₁⟩ := cy.serve_spec (h cy (List.mem_cons_self _ _)) hb
    have hd : (ctxAfterHead (cy.start ctx) cy.parts.headers).date = ctx.date := cy.date_start ctx
    cases cys with
    | nil =>
      exact ⟨_, buf₁, out₁, by rw [serveCycles_singleton, hs], hd,
        fun hka => .inr (hka cy (List.mem_singleton_self _)), ha₁, by simpa using hr₁⟩
    | cons c cs =>
      have hka : (ctxAfterHead (cy.start ctx) cy.parts.headers).keepsAlive = true := hk cy (by simp)
      obtain ⟨ctx', buf', out, he, hd', hk', ha, hr⟩ := ih (ha₁.2 ▸ hb)
        (fun cy' hc => (cy'.servable_congr hd).mpr (h cy' (List.mem_cons_of_mem _ hc)))
        (fun cy' hc => (cy'.keepsAlive_congr hd).mpr (hk cy' (by simp [hc])))
      refine ⟨ctx', buf', out₁ ++ out, ?_, hd'.trans hd,
        fun hall => .inr ((hk' fun cy' hc => (cy'.keepsAlive_congr hd).mpr
          (hall cy' (List.mem_cons_of_mem _ hc))).resolve_left (List.cons_ne_nil _ _)),
        ha₁.trans ha, ?_⟩
      · rw [serveCycles, hs, Option.some_bind, if_pos hka, he]
      · simp only [Cycle.responses_congr _ hd] at hr
        exact hr₁.append hr

/-- **Responses one after another.** From any context and a write buffer with nothing staged, any
sequence of request-response cycles whose responses delimit themselves, each but the last
keeping the connection open, is served without a panic or an error, and the bytes queued are
read by an RFC 7230 client as exactly the cycles' responses, in order: each `100 Continue` a
request expected, then the response with its status, the fields of its head and its body. No
response runs into the next, and nothing is left. -/
theorem serve_pipelined (cys : List Cycle) (ctx : Context) (buf : WriteBuf)
    (hb : buf.scratch.getD [] = []) (h : ∀ cy ∈ cys, cy.Servable ctx)
    (hk : ∀ cy ∈ cys.dropLast, cy.KeepsAlive ctx) :
    ∃ ctx' buf' out, serveCycles cys ctx buf = some (ctx', buf') ∧ buf.Appends out buf' ∧
      readResponses out = some (cys.flatMap fun cy => cy.responses ctx) := by
  obtain ⟨ctx', buf', out, he, -, -, ha, hr⟩ := serveCycles_reads cys hb h hk
  exact ⟨ctx', buf', out, he, ha, hr.readResponses_eq⟩

/-- A request expecting `100 Continue` answered with five bytes, then a streamed response. -/
theorem serve_pipelined_two :
    (WriteBuf.flat []).scratch.getD [] = [] ∧
    (∀ cy ∈ [(⟨[.expect], ⟨.ok, .http11, .empty⟩, .bytes (ascii "hello")⟩ : Cycle),
        ⟨[], ⟨.ok, .http11, .empty⟩, .stream [ascii "hi"]⟩],
      cy.Servable (Context.new ⟨ascii "Sun, 06 Nov 1994 08:49:37 GMT", by decide⟩)) ∧
    (∀ cy ∈ [(⟨[.expect], ⟨.ok, .http11, .empty⟩, .bytes (ascii "hello")⟩ : Cycle),
        ⟨[], ⟨.ok, .http11, .empty⟩, .stream [ascii "hi"]⟩].dropLast,
      cy.KeepsAlive (Context.new ⟨ascii "Sun, 06 Nov 1994 08:49:37 GMT", by decide⟩)) ∧
    ∃ ctx' buf' out, serveCycles [⟨[.expect], ⟨.ok, .http11, .empty⟩, .bytes (ascii "hello")⟩,
        ⟨[], ⟨.ok, .http11, .empty⟩, .stream [ascii "hi"]⟩]
        (Context.new ⟨ascii "Sun, 06 Nov 1994 08:49:37 GMT", by decide⟩) (.flat []) =
          some (ctx', buf') ∧
      (WriteBuf.flat []).Appends out buf' ∧
      readResponses out = some ([(⟨[.expect], ⟨.ok, .http11, .empty⟩, .bytes (ascii "hello")⟩ : Cycle),
        ⟨[], ⟨.ok, .http11, .empty⟩, .stream [ascii "hi"]⟩].flatMap fun cy =>
          cy.responses (Context.new ⟨ascii "Sun, 06 Nov 1994 08:49:37 GMT", by decide⟩)) :=
  have hs : ∀ cy ∈ [(⟨[.expect], ⟨.ok, .http11, .empty⟩, .bytes (ascii "hello")⟩ : Cycle),
      ⟨[], ⟨.ok, .http11, .empty⟩, .stream [ascii "hi"]⟩],
      cy.Servable (Context.new ⟨ascii "Sun, 06 Nov 1994 08:49:37 GMT", by decide⟩) := by decide
  have hk : ∀ cy ∈ [(⟨[.expect], ⟨.ok, .http11, .empty⟩, .bytes (ascii "hello")⟩ : Cycle),
      ⟨[], ⟨.ok, .http11, .empty⟩, .stream [ascii "hi"]⟩].dropLast,
      cy.KeepsAlive (Context.new ⟨ascii "Sun, 06 Nov 1994 08:49:37 GMT", by decide⟩) := by decide
  ⟨rfl, hs, hk, serve_pipelined _ _ _ rfl hs hk⟩

/-! ### Handing the connection over -/

/-- A body the head gives no length: none, or a stream. -/
def ResponseBody.Unsized : ResponseBody → Prop
  | .bytes _ => False
  | _ => True

instance : (body : ResponseBody) → Decidable body.Unsized
  | .none => isTrue trivial
  | .bytes _ => isFalse id
  | .stream _ => isTrue trivial

/-- Under `Upgrade` a body with no length gets a pass-through encoder. -/
theorem ResponseBody.encoder_upgrade {body : ResponseBody} (h : body.Unsized) :
    (body.encoder .upgrade).kind = .eof ∨ (body.encoder .upgrade).kind = .plainChunked := by
  cases body with
  | none => exact .inl rfl
  | bytes x => exact h.elim
  | stream cs => exact .inr rfl

namespace Cycle

/-- The cycle hands the connection over: it answers `101 Switching Protocols` with a map holding
one value per name and readable `Connection` values, its head leaves the disposition `Upgrade`,
and its body has no length; read at the context the response is encoded with. -/
def Switches (cy : Cycle) (ctx : Context) : Prop :=
  cy.parts.status = .switchingProtocols ∧ cy.parts.headers.SingleValued ∧
    (∀ f ∈ cy.parts.headers.fields, Readable (cy.start ctx).isForceClose f) ∧
    ctypeAfter (cy.start ctx) cy.parts.headers = .upgrade ∧ cy.body.Unsized

instance (cy : Cycle) (ctx : Context) : Decidable (cy.Switches ctx) :=
  inferInstanceAs (Decidable (cy.parts.status = .switchingProtocols ∧ cy.parts.headers.SingleValued ∧
    (∀ f ∈ cy.parts.headers.fields, Readable (cy.start ctx).isForceClose f) ∧
    ctypeAfter (cy.start ctx) cy.parts.headers = .upgrade ∧ cy.body.Unsized))

/-- What a client reads up to the hand-over: `100 Continue` when the request expected it, then
the `101` with the fields of its head and no body. -/
def switchResponses (cy : Cycle) (ctx : Context) : List Response :=
  (if (cy.start ctx).isExpectHeader then [continueResponse] else []) ++
    [⟨cy.parts.status.code, (headFields (cy.start ctx) cy.parts false cy.body.size).map
      (fun f => (f.1.bytes, dropOws f.2)), []⟩]

theorem switches_congr (cy : Cycle) {ctx ctx' : Context} (hd : ctx'.date = ctx.date) :
    cy.Switches ctx' ↔ cy.Switches ctx := by
  rw [Switches, Switches, start_eq cy hd]
  rfl

theorem switchResponses_congr (cy : Cycle) {ctx ctx' : Context} (hd : ctx'.date = ctx.date) :
    cy.switchResponses ctx' = cy.switchResponses ctx := by
  rw [switchResponses, switchResponses, start_eq cy hd]
  rfl

end Cycle

theorem skipLenOf_switchingProtocols (ctx : Context) :
    skipLenOf ctx .switchingProtocols = .ok false :=
  if_pos rfl

theorem passReplies_isOk (calls : List Call) : (calls.map passReply).all Reply.isOk = true := by
  refine List.all_eq_true.mpr fun r hr => ?_
  obtain ⟨c, -, rfl⟩ := List.mem_map.mp hr
  cases c <;> rfl

/-- **The switching cycle.** From a buffer with nothing staged, the cycle returns without a panic
or an error and leaves the disposition `Upgrade`; it queues bytes a client reads as the `101`
(after a `100 Continue` the request expected), whatever follows them, and then every chunk of the
body, raw and in order. -/
theorem Cycle.serve_switch_spec {cy : Cycle} {ctx : Context} (h : cy.Switches ctx)
    {buf : WriteBuf} (hb : buf.scratch.getD [] = []) :
    ∃ buf' out, cy.serve ctx buf = some (ctxAfterHead (cy.start ctx) cy.parts.headers, buf') ∧
      buf.Appends (out ++ cy.body.calls.flatMap Call.chunk) buf' ∧
      ReadsAs out (cy.switchResponses ctx) := by
  obtain ⟨h101, hm, hr, hu, hub⟩ := h
  obtain ⟨pre, hpre, hrpre⟩ := cy.interim_spec ctx buf
  obtain ⟨buf₂, he, hf⟩ := encodeHead_eq_ok (h101 ▸ skipLenOf_switchingProtocols _) hm hr
    cy.body.size (if (cy.start ctx).isExpectHeader then (cy.start ctx).encodeContinue buf else buf)
  obtain ⟨buf₃, hrun, ha⟩ := passThrough_framing (ResponseBody.encoder_upgrade hub) cy.body.calls buf₂
  refine ⟨buf₃, pre ++ headOf (cy.start ctx) cy.parts false cy.body.size, ?_, ?_,
    hrpre.append (ReadsAs.single (headOf_ne_nil _ _ _ _)
      (parseResponse_noBody (.inl (by rw [h101]; decide)) false _))⟩
  · simp only [Cycle.serve, he, ctxAfterHead, hu, hrun, Option.some_bind, passReplies_isOk, if_true]
  · rw [List.append_assoc]
    exact hpre.trans ((hf.appends (hpre.2 ▸ hb)).trans ha)

/-- A run of cycles that ends keeping the connection open goes on with the cycles after it. -/
theorem serveCycles_append {cys : List Cycle} {ctx ctx₁ : Context} {buf buf₁ : WriteBuf}
    (h : serveCycles cys ctx buf = some (ctx₁, buf₁)) (hk : cys = [] ∨ ctx₁.keepsAlive = true)
    (ds : List Cycle) : serveCycles (cys ++ ds) ctx buf = serveCycles ds ctx₁ buf₁ := by
  induction cys generalizing ctx buf with
  | nil => cases h; rfl
  | cons cy cys ih =>
    have hk₁ := hk.resolve_left (List.cons_ne_nil _ _)
    simp only [serveCycles, List.cons_append] at h ⊢
    obtain ⟨⟨c, b⟩, hs, hr⟩ := Option.bind_eq_some.mp h
    rw [hs, Option.some_bind]
    by_cases hc : c.keepsAlive = true
    · rw [if_pos hc] at hr ⊢
      exact ih hr (.inr hk₁)
    · rw [if_neg hc] at hr
      cases hr
      exact absurd hk₁ hc

/-- **Handing the connection over.** From any context and a write buffer with nothing staged, any
sequence of cycles whose responses delimit themselves and keep the connection open, followed by
a cycle that answers
`101 Switching Protocols` and leaves the disposition `Upgrade` with a body of no length, is
served without a panic or an error and leaves the disposition `Upgrade`. A client reads the bytes
queued as exactly the cycles' responses and then the `101` (each `100 Continue` a request expected
in its place), whatever follows them; what follows is every chunk of the last body, raw and in
order. The framing field the `101` head still declares is no body to the client: an
informational response has none. -/
theorem serve_switch (cys : List Cycle) (up : Cycle) (ctx : Context) (buf : WriteBuf)
    (hb : buf.scratch.getD [] = []) (h : ∀ cy ∈ cys, cy.Servable ctx)
    (hk : ∀ cy ∈ cys, cy.KeepsAlive ctx) (hup : up.Switches ctx) :
    ∃ ctx' buf' out, serveCycles (cys ++ [up]) ctx buf = some (ctx', buf') ∧
      ctx'.ctype = .upgrade ∧ buf.Appends (out ++ up.body.calls.flatMap Call.chunk) buf' ∧
      ReadsAs out ((cys.flatMap fun cy => cy.responses ctx) ++ up.switchResponses ctx) := by
  obtain ⟨ctx₁, buf₁, out₁, he₁, hd₁, hk₁, ha₁, hr₁⟩ :=
    serveCycles_reads cys hb h fun cy hc => hk cy (List.mem_of_mem_dropLast hc)
  have hup₁ := (up.switches_congr hd₁).mpr hup
  obtain ⟨buf₂, out₂, hs, ha₂, hr₂⟩ := up.serve_switch_spec hup₁ (ha₁.2 ▸ hb)
  refine ⟨ctxAfterHead (up.start ctx₁) up.parts.headers, buf₂, out₁ ++ out₂, ?_, hup₁.2.2.2.1, ?_, ?_⟩
  · rw [serveCycles_append he₁ (hk₁ hk), serveCycles_singleton, hs]
  · rw [List.append_assoc]
    exact ha₁.trans ha₂
  · rw [up.switchResponses_congr hd₁] at hr₂
    exact hr₁.append hr₂

/-- A five-byte response, then a `101` with `Connection: upgrade` whose streamed body carries the
new protocol's bytes. -/
theorem serve_switch_upgrade :
    (WriteBuf.flat []).scratch.getD [] = [] ∧
    (∀ cy ∈ [(⟨[], ⟨.ok, .http11, .empty⟩, .bytes (ascii "hello")⟩ : Cycle)],
      cy.Servable (Context.new ⟨ascii "Sun, 06 Nov 1994 08:49:37 GMT", by decide⟩)) ∧
    (∀ cy ∈ [(⟨[], ⟨.ok, .http11, .empty⟩, .bytes (ascii "hello")⟩ : Cycle)],
      cy.KeepsAlive (Context.new ⟨ascii "Sun, 06 Nov 1994 08:49:37 GMT", by decide⟩)) ∧
    Cycle.Switches ⟨[], ⟨.switchingProtocols, .http11,
        ⟨[(.connection, ⟨ascii "upgrade", by decide⟩, [])], by decide⟩⟩, .stream [[1, 2], [3]]⟩
      (Context.new ⟨ascii "Sun, 06 Nov 1994 08:49:37 GMT", by decide⟩) ∧
    ∃ ctx' buf' out, serveCycles ([⟨[], ⟨.ok, .http11, .empty⟩, .bytes (ascii "hello")⟩] ++
        [⟨[], ⟨.switchingProtocols, .http11,
          ⟨[(.connection, ⟨ascii "upgrade", by decide⟩, [])], by decide⟩⟩, .stream [[1, 2], [3]]⟩])
        (Context.new ⟨ascii "Sun, 06 Nov 1994 08:49:37 GMT", by decide⟩) (.flat []) =
          some (ctx', buf') ∧
      ctx'.ctype = .upgrade ∧
      (WriteBuf.flat []).Appends (out ++ (ResponseBody.stream [[1, 2], [3]]).calls.flatMap Call.chunk)
        buf' ∧
      ReadsAs out (([(⟨[], ⟨.ok, .http11, .empty⟩, .bytes (ascii "hello")⟩ : Cycle)].flatMap fun cy =>
          cy.responses (Context.new ⟨ascii "Sun, 06 Nov 1994 08:49:37 GMT", by decide⟩)) ++
        Cycle.switchResponses ⟨[], ⟨.switchingProtocols, .http11,
            ⟨[(.connection, ⟨ascii "upgrade", by decide⟩, [])], by decide⟩⟩, .stream [[1, 2], [3]]⟩
          (Context.new ⟨ascii "Sun, 06 Nov 1994 08:49:37 GMT", by decide⟩)) :=
  have hs : ∀ cy ∈ [(⟨[], ⟨.ok, .http11, .empty⟩, .bytes (ascii "hello")⟩ : Cycle)],
      cy.Servable (Context.new ⟨ascii "Sun, 06 Nov 1994 08:49:37 GMT", by decide⟩) := by decide
  have hk : ∀ cy ∈ [(⟨[], ⟨.ok, .http11, .empty⟩, .bytes (ascii "hello")⟩ : Cycle)],
      cy.KeepsAlive (Context.new ⟨ascii "Sun, 06 Nov 1994 08:49:37 GMT", by decide⟩) := by decide
  have hu : Cycle.Switches ⟨[], ⟨.switchingProtocols, .http11,
      ⟨[(.connection, ⟨ascii "upgrade", by decide⟩, [])], by decide⟩⟩, .stream [[1, 2], [3]]⟩
      (Context.new ⟨ascii "Sun, 06 Nov 1994 08:49:37 GMT", by decide⟩) := by decide
  ⟨rfl, hs, hk, hu, serve_switch _ _ _ _ rfl hs hk hu⟩

end ActixServerAlt.H1
