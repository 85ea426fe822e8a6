import ActixServerAlt.Bytes

/-!
# The `http` crate's response types

The head encoder reads a response's `Parts`: a `Version`, a `StatusCode` and a `HeaderMap`.
These are the `http` crate's types; each is modelled with the invariant the crate enforces on
construction, so that an invalid value cannot be built:

* `StatusCode`: a three-digit code, with `as_str`, `canonical_reason`, `is_informational` and
  `is_success`;
* `HeaderName`: a non-empty token in lower case (`HeaderName::from_bytes` lowers it);
* `HeaderValue`: bytes accepted by `HeaderValue::from_bytes` (no control byte but tab), with
  `to_str`;
* `HeaderMap`: one entry per name in insertion order, each with its first value and the values
  appended after it; `drain` yields the first value of an entry under `Some(name)` and the
  others under `None`.
-/

namespace ActixServerAlt

/-- `http::Version`. -/
inductive Version
  | http09
  | http10
  | http11
  | http2
  | http3
  deriving DecidableEq, Repr

/-! ### Status codes -/

/-- `http::StatusCode`: a code from 100 to 999. -/
structure StatusCode where
  code : Nat
  valid : 100 ≤ code ∧ code < 1000
  deriving DecidableEq

/-- The reason phrases `StatusCode::canonical_reason` knows. -/
def reasonTable : List (Nat × String) :=
  [(100, "Continue"), (101, "Switching Protocols"), (102, "Processing"),
   (200, "OK"), (201, "Created"), (202, "Accepted"), (203, "Non Authoritative Information"),
   (204, "No Content"), (205, "Reset Content"), (206, "Partial Content"),
   (207, "Multi-Status"), (208, "Already Reported"), (226, "IM Used"),
   (300, "Multiple Choices"), (301, "Moved Permanently"), (302, "Found"), (303, "See Other"),
   (304, "Not Modified"), (305, "Use Proxy"), (307, "Temporary Redirect"),
   (308, "Permanent Redirect"),
   (400, "Bad Request"), (401, "Unauthorized"), (402, "Payment Required"), (403, "Forbidden"),
   (404, "Not Found"), (405, "Method Not Allowed"), (406, "Not Acceptable"),
   (407, "Proxy Authentication Required"), (408, "Request Timeout"), (409, "Conflict"),
   (410, "Gone"), (411, "Length Required"), (412, "Precondition Failed"),
   (413, "Payload Too Large"), (414, "URI Too Long"), (415, "Unsupported Media Type"),
   (416, "Range Not Satisfiable"), (417, "Expectation Failed"), (418, "I\x27m a teapot"),
   (421, "Misdirected Request"), (422, "Unprocessable Entity"), (423, "Locked"),
   (424, "Failed Dependency"), (426, "Upgrade Required"), (428, "Precondition Required"),
   (429, "Too Many Requests"), (431, "Request Header Fields Too Large"),
   (451, "Unavailable For Legal Reasons"),
   (500, "Internal Server Error"), (501, "Not Implemented"), (502, "Bad Gateway"),
   (503, "Service Unavailable"), (504, "Gateway Timeout"), (505, "HTTP Version Not Supported"),
   (506, "Variant Also Negotiates"), (507, "Insufficient Storage"), (508, "Loop Detected"),
   (510, "Not Extended"), (511, "Network Authentication Required")]

namespace StatusCode

/-- `StatusCode::OK`. -/
def ok : StatusCode := ⟨200, by decide⟩

/-- `StatusCode::SWITCHING_PROTOCOLS`. -/
def switchingProtocols : StatusCode := ⟨101, by decide⟩

/-- `StatusCode::is_informational`: a `1xx` code. -/
def isInformational (s : StatusCode) : Bool := s.code < 200

/-- `StatusCode::is_success`: a `2xx` code. -/
def isSuccess (s : StatusCode) : Bool := 200 ≤ s.code && s.code < 300

/-- `StatusCode::as_str`: the three digits of the code. -/
def asStr (s : StatusCode) : Bytes :=
  [digitByte (s.code / 100), digitByte (s.code / 10 % 10), digitByte (s.code % 10)]

/-- `StatusCode::canonical_reason`. -/
def canonicalReason (s : StatusCode) : Option String := reasonTable.lookup s.code

end StatusCode

/-! ### Header names and values -/

/-- A byte of a header name: an RFC 7230 `tchar`, letters in lower case, as the `http` crate stores
names. The crate's own table (`HEADER_CHARS`) is not part of this repository; a byte it admits
beyond `tchar` (it may admit the double quote) makes a name this model leaves out. -/
def isNameByte (c : UInt8) : Bool :=
  (48 ≤ c.toNat && c.toNat ≤ 57) || (97 ≤ c.toNat && c.toNat ≤ 122) ||
    [33, 35, 36, 37, 38, 39, 42, 43, 45, 46, 94, 95, 96, 124, 126].contains c

/-- `http::HeaderName`. -/
structure HeaderName where
  bytes : Bytes
  nonempty : bytes ≠ []
  valid : ∀ c ∈ bytes, isNameByte c = true
  deriving DecidableEq

/-- A name is its bytes: the other fields are proofs. Distinct names are told apart by `decide`
on their bytes. -/
theorem HeaderName.eq_of_bytes {a b : HeaderName} (h : a.bytes = b.bytes) : a = b := by
  cases a; cases b; cases h; rfl

/-- A byte `HeaderValue::from_bytes` accepts: anything from a space up, except `DEL`, and tab. -/
def isValueByte (c : UInt8) : Bool := (32 ≤ c.toNat && c.toNat != 127) || c.toNat == 9

/-- `http::HeaderValue`. -/
structure HeaderValue where
  bytes : Bytes
  valid : ∀ c ∈ bytes, isValueByte c = true
  deriving DecidableEq

/-- A byte `HeaderValue::to_str` accepts: visible ASCII, space or tab. -/
def isVisibleAscii (c : UInt8) : Bool := (32 ≤ c.toNat && c.toNat < 127) || c.toNat == 9

namespace HeaderName

/-- `CONTENT_LENGTH`. -/
def contentLength : HeaderName := ⟨ascii "content-length", by decide, by decide⟩

/-- `TRANSFER_ENCODING`. -/
def transferEncoding : HeaderName := ⟨ascii "transfer-encoding", by decide, by decide⟩

/-- `CONNECTION`. -/
def connection : HeaderName := ⟨ascii "connection", by decide, by decide⟩

/-- `DATE`. -/
def date : HeaderName := ⟨ascii "date", by decide, by decide⟩

end HeaderName

/-- `HeaderValue::to_str`: the value as text, when every byte is visible ASCII. -/
def HeaderValue.toStr (v : HeaderValue) : Option Bytes :=
  if v.bytes.all isVisibleAscii then some v.bytes else none

/-- `to_str` gives the value back or fails. -/
theorem HeaderValue.toStr_eq_none {v : HeaderValue} (h : v.toStr ≠ some v.bytes) : v.toStr = none := by
  unfold HeaderValue.toStr at *
  split_ifs at *
  · exact absurd rfl h
  · rfl

/-! ### Header maps -/

/-- `http::HeaderMap`: one entry per name, in order, with its first value and the values
appended after it. -/
structure HeaderMap where
  entries : List (HeaderName × HeaderValue × List HeaderValue)
  nodup : (entries.map Prod.fst).Nodup

namespace HeaderMap

/-- The map `drain` leaves behind. -/
def empty : HeaderMap := ⟨[], List.nodup_nil⟩

/-- `HeaderMap::drain`: every value once, the first of each entry under its name and the
others under `None`. -/
def drain (m : HeaderMap) : List (Option HeaderName × HeaderValue) :=
  m.entries.flatMap fun e => (some e.1, e.2.1) :: e.2.2.map fun v => (none, v)

/-- Every name holds a single value. -/
def SingleValued (m : HeaderMap) : Prop := ∀ e ∈ m.entries, e.2.2 = []

instance (m : HeaderMap) : Decidable m.SingleValued :=
  inferInstanceAs (Decidable (∀ e ∈ m.entries, e.2.2 = []))

/-- The values of a map in drain order, with their names. -/
def fields (m : HeaderMap) : List (HeaderName × HeaderValue) :=
  m.entries.flatMap fun e => (e.1, e.2.1) :: e.2.2.map fun v => (e.1, v)

theorem drain_of_singleValued {m : HeaderMap} (h : m.SingleValued) :
    m.drain = m.fields.map fun f => (some f.1, f.2) := by
  obtain ⟨es, hn⟩ := m
  simp only [SingleValued, drain, fields] at h ⊢
  clear hn
  induction es with
  | nil => rfl
  | cons e es ih =>
    simp only [List.mem_cons, forall_eq_or_imp] at h
    simp [List.flatMap_cons, h.1, ih h.2]

/-- A map whose drain names every value holds one value per name. -/
theorem singleValued_of_drain {m : HeaderMap} (h : ∀ f ∈ m.drain, f.1.isSome) : m.SingleValued := by
  intro e he
  cases hv : e.2.2 with
  | nil => rfl
  | cons v vs => simpa using h (none, v) (List.mem_flatMap.mpr ⟨e, he, by simp [hv]⟩)

end HeaderMap

/-- `http::response::Parts`, the fields the encoder reads. -/
structure Parts where
  status : StatusCode
  version : Version
  headers : HeaderMap

end ActixServerAlt
