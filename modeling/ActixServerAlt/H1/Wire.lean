import ActixServerAlt.H1.Head
import ActixServerAlt.Rfc7230

/-!
# The head on the wire

The head `encode_head_inner` writes, as the lines and fields an RFC 7230 reader finds in it:
the status line, one field for each value the header loop wrote, and the fields the encoder
adds after the loop.

* `statusText`, `fieldText`: a line without its CRLF;
* `synthFields`: the `connection: close`, framing and `date` fields written after the loop;
* `headFields`: every field of a head, in order;
* `headOf_eq`: the head is its lines, each ended by CRLF, then the empty line;
* `parseHead_headOf`: the head reads back as its status code and its fields.
-/

namespace ActixServerAlt.H1

open Rfc7230

/-- The status line without its CRLF. -/
def statusText (version : Version) (status : StatusCode) : Bytes :=
  versionToken version ++ status.asStr ++ ascii " " ++
    ascii (status.canonicalReason.getD "<none>")

/-- A field line without its CRLF. -/
def fieldText (name : HeaderName) (value : Bytes) : Bytes := name.bytes ++ ascii ": " ++ value

/-- The framing field a size hint declares. -/
def framingField : ResponseBodySize → List (HeaderName × Bytes)
  | .none => []
  | .stream => [(.transferEncoding, ascii "chunked")]
  | .sized n => [(.contentLength, decimal n.toNat)]

/-- The fields written after the header loop: `connection: close` under force-close, the
framing field unless it is skipped, and the cached `date` unless the map held one. -/
def synthFields (force skipLen skipDate : Bool) (size : ResponseBodySize) (date : HeaderValue) :
    List (HeaderName × Bytes) :=
  (if force then [(.connection, ascii "close")] else []) ++
    (if skipLen then [] else framingField size) ++
    (if skipDate then [] else [(.date, date.bytes)])

/-- The fields of the head written for `parts`: the values the loop wrote, in drain order, then
the synthesized ones. -/
def headFields (ctx : Context) (parts : Parts) (skipLen : Bool) (size : ResponseBodySize) :
    List (HeaderName × Bytes) :=
  (writtenFields ctx.isForceClose parts.headers.fields).map (fun f => (f.1, f.2.bytes)) ++
    synthFields ctx.isForceClose (skipsLen skipLen parts.headers) (hasDate parts.headers) size
      ctx.date

/-- The lines of the head written for `parts`. -/
def headLinesOf (ctx : Context) (parts : Parts) (skipLen : Bool) (size : ResponseBodySize) :
    List Bytes :=
  statusText parts.version parts.status ::
    (headFields ctx parts skipLen size).map fun f => fieldText f.1 f.2

/-! ### The head as lines -/

theorem statusLine_eq (version : Version) (status : StatusCode) :
    statusLine version status = statusText version status ++ crlf := by
  simp [statusLine, statusText]

theorem fieldLine_eq (name : HeaderName) (value : HeaderValue) :
    fieldLine name value = fieldText name value.bytes ++ crlf := by
  simp [fieldLine, fieldText]

theorem framingLine_eq (size : ResponseBodySize) :
    framingLine size = (framingField size).flatMap fun f => fieldText f.1 f.2 ++ crlf := by
  cases size with
  | none => rfl
  | stream => rfl
  | sized n =>
    simp only [framingLine, framingField, fieldText, List.flatMap_cons, List.flatMap_nil,
      List.append_nil, List.append_assoc, ascii_crlf, crlf_eq]
    rfl

theorem headTail_eq (force skipLen skipDate : Bool) (size : ResponseBodySize)
    (date : HeaderValue) :
    headTail force skipLen skipDate size date =
      (synthFields force skipLen skipDate size date).flatMap (fun f => fieldText f.1 f.2 ++ crlf) ++
        crlf := by
  have hc : ascii "connection: close\r\n" = fieldText .connection (ascii "close") ++ crlf := rfl
  have hd : ∀ b, fieldText .date b = ascii "date: " ++ b := fun _ => rfl
  cases force <;> cases skipLen <;> cases skipDate <;>
    simp [headTail, synthFields, framingLine_eq, hc, hd]

/-- **The head is its lines**, each ended by CRLF, then the empty line. -/
theorem headOf_eq (ctx : Context) (parts : Parts) (skipLen : Bool) (size : ResponseBodySize) :
    headOf ctx parts skipLen size = renderLines (headLinesOf ctx parts skipLen size) := by
  simp [headOf, headLinesOf, headFields, renderLines, statusLine_eq, fieldLine_eq, headTail_eq,
    List.flatMap_append, List.flatMap_map]

/-! ### Every line is text -/

theorem isTextByte_digitByte {d : Nat} (h : d < 10) : isTextByte (digitByte d) = true := by
  simp [isTextByte, digitByte_toNat (by omega : d < 16), h]; omega

/-- Every reason phrase the table knows is text. -/
theorem reasonTable_text : ∀ p ∈ reasonTable, ∀ c ∈ ascii p.2, isTextByte c = true := by decide

theorem exists_mem_of_lookup {l : List (Nat × String)} {k : Nat} {r : String}
    (h : l.lookup k = some r) : ∃ p ∈ l, p.2 = r := by
  induction l with
  | nil => simp at h
  | cons q qs ih =>
    obtain ⟨k', r'⟩ := q
    rw [List.lookup_cons] at h
    split at h
    · exact ⟨_, List.mem_cons_self _ _, Option.some.inj h⟩
    · obtain ⟨p, hp, e⟩ := ih h; exact ⟨p, List.mem_cons_of_mem _ hp, e⟩

theorem statusText_text (version : Version) (status : StatusCode) :
    ∀ c ∈ statusText version status, isTextByte c = true := by
  have hv : ∀ c ∈ versionToken version, isTextByte c = true := by cases version <;> decide
  have hs : ∀ c ∈ status.asStr, isTextByte c = true := by
    simp only [StatusCode.asStr, List.mem_cons, List.mem_nil_iff, or_false]
    have := status.valid
    rintro c (rfl | rfl | rfl) <;> exact isTextByte_digitByte (by omega)
  have hr : ∀ c ∈ ascii (status.canonicalReason.getD "<none>"), isTextByte c = true := by
    unfold StatusCode.canonicalReason
    cases h : reasonTable.lookup status.code with
    | none => decide
    | some r =>
      obtain ⟨p, hp, rfl⟩ := exists_mem_of_lookup h
      exact reasonTable_text p hp
  simp only [statusText, List.mem_append]
  rintro c (((hc | hc) | hc) | hc)
  · exact hv c hc
  · exact hs c hc
  · simp [show ascii " " = [32] from rfl] at hc; subst hc; rfl
  · exact hr c hc

/-- The values of the synthesized fields are text. -/
theorem synthFields_text (force skipLen skipDate : Bool) (size : ResponseBodySize)
    (date : HeaderValue) :
    ∀ f ∈ synthFields force skipLen skipDate size date, ∀ c ∈ f.2, isTextByte c = true := by
  intro f hf
  simp only [synthFields, List.mem_append, List.mem_ite_nil_right, List.mem_ite_nil_left,
    List.mem_singleton] at hf
  rcases hf with ((⟨-, rfl⟩ | ⟨-, hf⟩) | ⟨-, rfl⟩)
  · decide
  · cases size with
    | none => simp [framingField] at hf
    | stream => simp only [framingField, List.mem_singleton] at hf; subst hf; decide
    | sized n =>
      simp only [framingField, List.mem_singleton] at hf; subst hf
      intro c hc
      obtain ⟨d, hd, rfl⟩ := List.mem_map.mp hc
      exact isTextByte_digitByte (lt_of_mem_radix (by omega) hd)
  · exact fun c hc => isTextByte_of_isValueByte (date.valid c hc)

/-- The values of a head's fields are text. -/
theorem headFields_text (ctx : Context) (parts : Parts) (skipLen : Bool) (size : ResponseBodySize) :
    ∀ f ∈ headFields ctx parts skipLen size, ∀ c ∈ f.2, isTextByte c = true := by
  simp only [headFields, List.mem_append, List.mem_map]
  rintro f (⟨g, -, rfl⟩ | hf)
  · exact fun c hc => isTextByte_of_isValueByte (g.2.valid c hc)
  · exact synthFields_text _ _ _ _ _ f hf

theorem fieldText_text (name : HeaderName) {value : Bytes} (hv : ∀ c ∈ value, isTextByte c = true) :
    ∀ c ∈ fieldText name value, isTextByte c = true := by
  simp only [fieldText, List.mem_append]
  rintro c ((hc | hc) | hc)
  · exact isTextByte_of_isNameByte (name.valid c hc)
  · simp [show ascii ": " = [58, 32] from rfl] at hc; rcases hc with rfl | rfl <;> rfl
  · exact hv c hc

/-- Every line of a head is non-empty and holds no CR. -/
theorem headLinesOf_safe (ctx : Context) (parts : Parts) (skipLen : Bool)
    (size : ResponseBodySize) : ∀ l ∈ headLinesOf ctx parts skipLen size, l ≠ [] ∧ LineSafe l := by
  simp only [headLinesOf, List.mem_cons, List.mem_map]
  rintro l (rfl | ⟨f, hf, rfl⟩)
  · refine ⟨?_, lineSafe_of_text (statusText_text _ _)⟩
    cases parts.version <;> simp [statusText, versionToken, ascii]
  · exact ⟨by simp [fieldText, f.1.nonempty],
      lineSafe_of_text (fieldText_text f.1 (headFields_text ctx parts skipLen size f hf))⟩

/-! ### Reading the head back -/

theorem versionToken_eq (version : Version) :
    versionToken version = ascii "HTTP/" ++ [49, 46, if version = .http10 then 48 else 49, 32] := by
  cases version <;> rfl

theorem parseStatusLine_statusText (version : Version) (status : StatusCode) :
    parseStatusLine (statusText version status) = some status.code := by
  have hv := status.valid
  have hr : ∀ c ∈ ascii (status.canonicalReason.getD "<none>"), isTextByte c = true :=
    fun c hc => statusText_text version status c (List.mem_append_right _ hc)
  have hm : isDigit (if version = .http10 then 48 else 49) = true := by split <;> rfl
  have e : statusText version status = ascii "HTTP/" ++ [49, 46, if version = .http10 then 48 else 49,
      32, digitByte (status.code / 100), digitByte (status.code / 10 % 10),
      digitByte (status.code % 10), 32] ++ ascii (status.canonicalReason.getD "<none>") := by
    simp [statusText, versionToken_eq, StatusCode.asStr, show ascii " " = [32] from rfl]
  rw [e, @parseStatusLine_eq 49 _ rfl hm (status.code / 100) (status.code / 10 % 10)
    (status.code % 10) (by omega) (by omega) (by omega) _ hr]
  congr 1; omega

/-- **The head reads back**: an RFC 7230 reader finds the status code and every field of the
head, each value without the whitespace around it, and stops right after the empty line. -/
theorem parseHead_headOf (ctx : Context) (parts : Parts) (skipLen : Bool)
    (size : ResponseBodySize) (rest : Bytes) :
    parseHead (headOf ctx parts skipLen size ++ rest) =
      some (parts.status.code,
        (headFields ctx parts skipLen size).map (fun f => (f.1.bytes, dropOws f.2)), rest) := by
  have hf := parseFields_map fun f hf =>
    parseField_text f.1.nonempty f.1.valid f.2 (headFields_text ctx parts skipLen size f hf)
  rw [headOf_eq]
  exact parseHead_render (parseStatusLine_statusText _ _) hf (headLinesOf_safe ctx parts skipLen size)
    rest

/-! ### Head serialization -/

/-- **Head serialization.** `encode_head` never panics on a map with one value per name, and
panics on a map with several values under one name once it accepted the status and read the
values. When it succeeds, the map held one value per name, and the buffer gets the head's
lines: the status line, one line for each value in drain order (none for a `Connection` value
under force-close), then the synthesized `connection`, framing and `date` lines (`date` exactly
when the map held none), each ended by CRLF, then the empty line. No line is empty or holds a CR,
so the empty line that ends the head is its only one. This is the release build: the two
`debug_assert!`s on a map that already holds a framing field are compiled out, so such a map
is written as it is. -/
theorem head_serialization (ctx : Context) (parts : Parts) (size : ResponseBodySize)
    (buf : WriteBuf) :
    (parts.headers.SingleValued → ∀ msg, ctx.encodeHead parts size buf ≠ .panic msg) ∧
    (∀ skipLen, skipLenOf ctx parts.status = .ok skipLen → ¬ parts.headers.SingleValued →
      (∀ f ∈ parts.headers.fields, Readable ctx.isForceClose f) →
      ctx.encodeHead parts size buf = .panic optionalNameMsg) ∧
    ∀ ctx' buf', ctx.encodeHead parts size buf = .ok () (ctx', buf') →
      ∃ skipLen, skipLenOf ctx parts.status = .ok skipLen ∧ parts.headers.SingleValued ∧
        buf.Flushes (renderLines (headLinesOf ctx parts skipLen size)) buf' ∧
        ∀ l ∈ headLinesOf ctx parts skipLen size, l ≠ [] ∧ LineSafe l := by
  refine ⟨fun hm => encodeHead_ne_panic hm size buf,
    fun _ hs hm hr => encodeHead_panic hs hm hr size buf, fun ctx' buf' h => ?_⟩
  obtain ⟨skipLen, hs, hm, -, -, hf⟩ := encodeHead_ok h
  exact ⟨skipLen, hs, hm, headOf_eq ctx parts skipLen size ▸ hf,
    headLinesOf_safe ctx parts skipLen size⟩

/-- A `set-cookie` name with two values makes `encode_head` panic. -/
theorem set_cookie_twice_panics :
    (Context.new ⟨ascii "Sun, 06 Nov 1994 08:49:37 GMT", by decide⟩).encodeHead
      ⟨.ok, .http11, ⟨[(⟨ascii "set-cookie", by decide, by decide⟩, ⟨ascii "a=1", by decide⟩,
        [⟨ascii "b=2", by decide⟩])], by decide⟩⟩ .none (.flat []) = .panic optionalNameMsg := by
  rfl

end ActixServerAlt.H1
