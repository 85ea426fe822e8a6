import ActixServerAlt.Http

/-!
# An RFC 7230 reader for HTTP/1.1 responses

The other side of the wire, written from RFC 7230 rather than from the source: what a client
reads from the bytes the encoder writes.

* `takeLine`, `headLines`: lines up to CRLF, and the lines of a head up to its empty line;
* `readHex`, `readDecimal`: `1*HEXDIG` and `1*DIGIT`;
* `decodeChunked`: the chunked body of §4.1 (chunk extensions ignored, trailer fields skipped);
* `parseField`, `parseStatusLine`, `framingOf`, `parseResponse`: a response to a request that
  is neither `HEAD` nor `CONNECT`, its body delimited by the rules of §3.3.3 on a connection
  that stays open, so a body that only the close of the connection would end is never complete.

Each reader comes with the lemma that it reads back what the matching writer produces.
Readers run on fuel, which the callers set to the length of the input.
-/

namespace ActixServerAlt.Rfc7230

/-! ### Lines -/

/-- The first line of `input`: the bytes before its first CRLF, and the bytes after that CRLF. -/
def takeLine : Bytes → Option (Bytes × Bytes)
  | [] => none
  | b :: rest =>
    if b = 13 ∧ rest.head? = some 10 then some ([], rest.tail)
    else (takeLine rest).map fun r => (b :: r.1, r.2)

/-- The lines of a head, up to the first empty line, and the bytes after that line. -/
def headLines : Nat → Bytes → Option (List Bytes × Bytes)
  | 0, _ => none
  | fuel + 1, input => (takeLine input).bind fun r =>
      if r.1 = [] then some ([], r.2) else (headLines fuel r.2).map fun h => (r.1 :: h.1, h.2)

/-- Lines written one after the other, each ended by CRLF, then the empty line. -/
def renderLines (ls : List Bytes) : Bytes := ls.flatMap (· ++ crlf) ++ crlf

/-- A line that can be read back: it holds no CR. -/
def LineSafe (l : Bytes) : Prop := 13 ∉ l

theorem takeLine_append {l : Bytes} (h : LineSafe l) (rest : Bytes) :
    takeLine (l ++ 13 :: 10 :: rest) = some (l, rest) := by
  induction l with
  | nil => simp [takeLine]
  | cons b l ih =>
    have hb : b ≠ 13 := fun e => h (e ▸ List.mem_cons_self _ _)
    simp [takeLine, hb, ih fun m => h (List.mem_cons_of_mem _ m)]

theorem headLines_render (ls : List Bytes) (hls : ∀ l ∈ ls, l ≠ [] ∧ LineSafe l) (rest : Bytes)
    (fuel : Nat) (hf : ls.length < fuel) :
    headLines fuel (renderLines ls ++ rest) = some (ls, rest) := by
  induction ls generalizing fuel with
  | nil =>
    obtain ⟨f, rfl⟩ : ∃ f, fuel = f + 1 := ⟨fuel - 1, by simp at hf; omega⟩
    simp only [renderLines, List.flatMap_nil, List.nil_append, crlf_eq, List.cons_append]
    rfl
  | cons l ls ih =>
    obtain ⟨f, rfl⟩ : ∃ f, fuel = f + 1 := ⟨fuel - 1, by simp at hf; omega⟩
    obtain ⟨hne, hsafe⟩ := hls l (List.mem_cons_self _ _)
    have hrest := ih (fun m hm => hls m (List.mem_cons_of_mem _ hm)) f (by simp at hf; omega)
    simp only [renderLines, List.flatMap_cons, List.append_assoc, crlf_eq, List.cons_append,
      List.nil_append] at hrest ⊢
    simp [headLines, takeLine_append hsafe, hne, hrest]

/-! ### Numbers -/

/-- A `DIGIT`. -/
def isDigit (c : UInt8) : Bool := 48 ≤ c.toNat && c.toNat ≤ 57

/-- The value of a `HEXDIG`, in either case. -/
def hexValue (c : UInt8) : Option Nat :=
  if 48 ≤ c.toNat ∧ c.toNat ≤ 57 then some (c.toNat - 48)
  else if 65 ≤ c.toNat ∧ c.toNat ≤ 70 then some (c.toNat - 55)
  else if 97 ≤ c.toNat ∧ c.toNat ≤ 102 then some (c.toNat - 87)
  else none

/-- The value of a `DIGIT`. -/
def decValue (c : UInt8) : Option Nat := if isDigit c then some (c.toNat - 48) else none

/-- The digit values of `s`, when every byte is a digit. -/
def digitsOf (value : UInt8 → Option Nat) : Bytes → Option (List Nat)
  | [] => some []
  | c :: cs => (value c).bind fun d => (digitsOf value cs).map (d :: ·)

/-- `1*HEXDIG`. -/
def readHex (s : Bytes) : Option Nat :=
  if s = [] then none else (digitsOf hexValue s).map (ofRadix 16)

/-- `1*DIGIT`. -/
def readDecimal (s : Bytes) : Option Nat :=
  if s = [] then none else (digitsOf decValue s).map (ofRadix 10)

theorem digitByte_toNat {d : Nat} (h : d < 16) :
    (digitByte d).toNat = if d < 10 then 48 + d else 55 + d := by
  unfold digitByte
  split_ifs <;> simp [Nat.toUInt8, UInt8.toNat, UInt8.ofNat, Fin.ofNat] <;> omega

theorem hexValue_digitByte {d : Nat} (h : d < 16) : hexValue (digitByte d) = some d := by
  unfold hexValue
  rw [digitByte_toNat h]
  by_cases hd : d < 10
  · rw [if_pos hd, if_pos (by omega), Nat.add_sub_cancel_left]
  · rw [if_neg hd, if_neg (by omega), if_pos (by omega), Nat.add_sub_cancel_left]

theorem decValue_digitByte {d : Nat} (h : d < 10) : decValue (digitByte d) = some d := by
  unfold decValue isDigit
  rw [digitByte_toNat (by omega), if_pos h, if_pos (by simp; omega), Nat.add_sub_cancel_left]

theorem digitsOf_map {value : UInt8 → Option Nat} {ds : List Nat}
    (h : ∀ d ∈ ds, value (digitByte d) = some d) : digitsOf value (ds.map digitByte) = some ds := by
  induction ds with
  | nil => rfl
  | cons d ds ih =>
    simp [digitsOf, h d (List.mem_cons_self _ _), ih fun e he => h e (List.mem_cons_of_mem _ he)]

/-- **Hex round trip.** -/
theorem readHex_upperHex (n : Nat) : readHex (upperHex n) = some n := by
  have hd : ∀ d ∈ radix 16 n, hexValue (digitByte d) = some d :=
    fun d hm => hexValue_digitByte (lt_of_mem_radix (by omega) hm)
  simp [readHex, upperHex, radix_ne_nil, digitsOf_map hd]

/-- **Decimal round trip.** -/
theorem readDecimal_decimal (n : Nat) : readDecimal (decimal n) = some n := by
  have hd : ∀ d ∈ radix 10 n, decValue (digitByte d) = some d :=
    fun d hm => decValue_digitByte (lt_of_mem_radix (by omega) hm)
  simp [readDecimal, decimal, radix_ne_nil, digitsOf_map hd]

theorem digitByte_ne {d : Nat} (h : d < 16) (c : UInt8)
    (hc : c.toNat < 48 ∨ (57 < c.toNat ∧ c.toNat < 65) ∨ 70 < c.toNat) : digitByte d ≠ c := by
  intro e
  have := digitByte_toNat h
  rw [e] at this
  split_ifs at this <;> omega

/-- A number written in hex holds neither CR nor `;`. -/
theorem upperHex_safe (n : Nat) : LineSafe (upperHex n) ∧ (59 : UInt8) ∉ upperHex n := by
  constructor <;>
  · simp only [LineSafe, upperHex, List.mem_map, not_exists, not_and]
    intro d hd
    exact digitByte_ne (lt_of_mem_radix (by omega) hd) _ (by decide)

/-! ### Chunked bodies -/

/-- Trailer fields, skipped up to the empty line that ends a chunked body. -/
def skipTrailer : Nat → Bytes → Option Bytes
  | 0, _ => none
  | fuel + 1, input => (takeLine input).bind fun r =>
      if r.1 = [] then some r.2 else skipTrailer fuel r.2

/-- A chunked body (RFC 7230 §4.1): the data of its chunks appended to `acc`, and the bytes
after the body. Chunk extensions, after `;`, are ignored. -/
def decodeChunked : Nat → Bytes → Bytes → Option (Bytes × Bytes)
  | 0, _, _ => none
  | fuel + 1, acc, input => (takeLine input).bind fun r =>
    (readHex (r.1.takeWhile (· != 59))).bind fun size =>
      if size = 0 then (skipTrailer fuel r.2).map fun rest => (acc, rest)
      else if size + 2 ≤ r.2.length ∧ (r.2.drop size).take 2 = crlf then
        decodeChunked fuel (acc ++ r.2.take size) (r.2.drop (size + 2))
      else none

/-- A chunked body read from the start of `input`. -/
def readChunked (input : Bytes) : Option (Bytes × Bytes) := decodeChunked (input.length + 1) [] input

/-- A non-empty chunk is read, and the reader goes on after it. -/
theorem decodeChunked_chunk {c : Bytes} (hc : c ≠ []) (fuel : Nat) (acc more : Bytes) :
    decodeChunked (fuel + 1) acc (upperHex c.length ++ crlf ++ c ++ crlf ++ more) =
      decodeChunked fuel (acc ++ c) more := by
  obtain ⟨hsafe, hsemi⟩ := upperHex_safe c.length
  have hw : (upperHex c.length).takeWhile (· != 59) = upperHex c.length :=
    List.takeWhile_eq_self_iff.mpr fun x hx => by
      simpa using fun e : x = 59 => hsemi (e ▸ hx)
  have hlen : c.length ≠ 0 := by simpa using hc
  simp only [List.append_assoc, crlf_eq, List.cons_append, List.nil_append] at *
  simp [decodeChunked, takeLine_append hsafe, hw, readHex_upperHex, hlen]

/-- The last chunk ends the body. -/
theorem decodeChunked_last (fuel : Nat) (acc rest : Bytes) :
    decodeChunked (fuel + 2) acc (ascii "0\r\n\r\n" ++ rest) = some (acc, rest) := by
  rfl

/-! ### Header fields and the status line -/

/-- A `tchar`: a byte of a field name. -/
def isTchar (c : UInt8) : Bool :=
  (48 ≤ c.toNat && c.toNat ≤ 57) || (65 ≤ c.toNat && c.toNat ≤ 90) ||
    (97 ≤ c.toNat && c.toNat ≤ 122) ||
    [33, 35, 36, 37, 38, 39, 42, 43, 45, 46, 94, 95, 96, 124, 126].contains c

/-- A byte of a field value or a reason phrase: `VCHAR`, `obs-text`, `SP` or `HTAB`. -/
def isTextByte (c : UInt8) : Bool := c.toNat == 9 || (32 ≤ c.toNat && c.toNat != 127)

/-- `OWS`. -/
def isOws (c : UInt8) : Bool := c == 32 || c == 9

/-- A field value without the optional whitespace around it. -/
def dropOws (s : Bytes) : Bytes := ((s.dropWhile isOws).reverse.dropWhile isOws).reverse

/-- A field line `field-name ":" OWS field-value OWS`: the name in lower case, and the value. -/
def parseField (line : Bytes) : Option (Bytes × Bytes) :=
  let name := line.takeWhile (· != 58)
  match line.dropWhile (· != 58) with
  | _ :: value =>
    if name ≠ [] ∧ name.all isTchar ∧ value.all isTextByte then
      some (name.map asciiLower, dropOws value)
    else none
  | [] => none

/-- Every line of a head after its status line, as fields. -/
def parseFields : List Bytes → Option (List (Bytes × Bytes))
  | [] => some []
  | l :: ls => (parseField l).bind fun f => (parseFields ls).map (f :: ·)

/-- A status line `HTTP/x.y SP 3DIGIT SP reason-phrase`: its status code. -/
def parseStatusLine : Bytes → Option Nat
  | h :: t₁ :: t₂ :: p :: sl :: major :: dot :: minor :: sp₁ :: d₁ :: d₂ :: d₃ :: sp₂ :: reason =>
    if [h, t₁, t₂, p, sl] = ascii "HTTP/" ∧ isDigit major ∧ dot = 46 ∧ isDigit minor ∧
        sp₁ = 32 ∧ isDigit d₁ ∧ isDigit d₂ ∧ isDigit d₃ ∧ sp₂ = 32 ∧ reason.all isTextByte then
      some ((d₁.toNat - 48) * 100 + (d₂.toNat - 48) * 10 + (d₃.toNat - 48))
    else none
  | _ => none

/-- The head of a response: its status code, its fields, and the bytes after its empty line. -/
def parseHead (input : Bytes) : Option (Nat × List (Bytes × Bytes) × Bytes) :=
  (headLines (input.length + 1) input).bind fun r =>
    match r.1 with
    | [] => none
    | sl :: fls => (parseStatusLine sl).bind fun code => (parseFields fls).map fun fs => (code, fs, r.2)

/-! ### Reading a head back -/

theorem toNat_mem_symbols {c : UInt8}
    (h : c ∈ ([33, 35, 36, 37, 38, 39, 42, 43, 45, 46, 94, 95, 96, 124, 126] : List UInt8)) :
    c.toNat ∈ ([33, 35, 36, 37, 38, 39, 42, 43, 45, 46, 94, 95, 96, 124, 126] : List Nat) :=
  List.mem_map_of_mem UInt8.toNat h

/-- The ranges of a header-name byte. -/
theorem isNameByte_toNat {c : UInt8} (h : isNameByte c = true) :
    (48 ≤ c.toNat ∧ c.toNat ≤ 57) ∨ (97 ≤ c.toNat ∧ c.toNat ≤ 122) ∨
      c.toNat ∈ ([33, 35, 36, 37, 38, 39, 42, 43, 45, 46, 94, 95, 96, 124, 126] : List Nat) := by
  simp only [isNameByte, Bool.or_eq_true, Bool.and_eq_true, decide_eq_true_eq, List.elem_iff,
      List.contains] at h
  rcases h with (h | h) | h
  · exact .inl h
  · exact .inr (.inl h)
  · exact .inr (.inr (toNat_mem_symbols h))

theorem toNat_ne_of_isNameByte {c : UInt8} (h : isNameByte c = true) :
    c.toNat ≠ 58 ∧ c.toNat ≠ 13 := by
  have := isNameByte_toNat h
  simp only [List.mem_cons, List.mem_nil_iff, or_false] at this
  omega

theorem isTchar_of_isNameByte {c : UInt8} (h : isNameByte c = true) : isTchar c = true := by
  simp only [isNameByte, isTchar, Bool.or_eq_true, Bool.and_eq_true, decide_eq_true_eq] at h ⊢
  tauto

theorem asciiLower_of_isNameByte {c : UInt8} (h : isNameByte c = true) : asciiLower c = c := by
  have := isNameByte_toNat h
  simp only [List.mem_cons, List.mem_nil_iff, or_false] at this
  unfold asciiLower
  rw [if_neg (by omega)]

theorem isTextByte_of_isValueByte {c : UInt8} (h : isValueByte c = true) : isTextByte c = true := by
  simpa [isValueByte, isTextByte, or_comm] using h

theorem isTextByte_of_isNameByte {c : UInt8} (h : isNameByte c = true) : isTextByte c = true := by
  have := isNameByte_toNat h
  simp only [List.mem_cons, List.mem_nil_iff, or_false] at this
  simp only [isTextByte, Bool.or_eq_true, beq_iff_eq, Bool.and_eq_true, decide_eq_true_eq,
    bne_iff_ne, ne_eq]
  omega

/-- A line of text bytes holds no CR. -/
theorem lineSafe_of_text {l : Bytes} (h : ∀ c ∈ l, isTextByte c = true) : LineSafe l :=
  fun hm => absurd (h 13 hm) (by decide)

theorem dropOws_space (s : Bytes) : dropOws (32 :: s) = dropOws s := by
  simp [dropOws, isOws]

theorem isDigit_digitByte {d : Nat} (h : d < 10) : isDigit (digitByte d) = true := by
  simp [isDigit, digitByte_toNat (by omega : d < 16), h]; omega

/-- A field line as a writer puts it: a name the `http` crate accepts, a colon, a space and a
value. -/
theorem parseField_text {name : Bytes} (hn : name ≠ []) (hname : ∀ c ∈ name, isNameByte c = true)
    (value : Bytes) (hv : ∀ c ∈ value, isTextByte c = true) :
    parseField (name ++ ascii ": " ++ value) = some (name, dropOws value) := by
  have h58 : ∀ c ∈ name, (c != 58) = true := fun c hc => by
    have := (toNat_ne_of_isNameByte (hname c hc)).1
    simp only [bne_iff_ne, ne_eq]; rintro rfl; exact this rfl
  simp only [parseField, show ascii ": " = [58, 32] from rfl, List.append_assoc,
    List.takeWhile_append_of_pos h58, List.dropWhile_append_of_pos h58]
  have hl : name.map asciiLower = name :=
    (List.map_congr_left fun c hc => asciiLower_of_isNameByte (hname c hc)).trans (List.map_id _)
  have hn' : name.all isTchar = true :=
    List.all_eq_true.mpr fun c hc => isTchar_of_isNameByte (hname c hc)
  have hv' : (32 :: value).all isTextByte = true :=
    List.all_eq_true.mpr fun c hc => (List.mem_cons.mp hc).elim (fun e => e ▸ rfl) (hv c)
  simp [hn, hl, hn', hv', dropOws_space]

theorem parseFields_map {α : Type} {xs : List α} {line : α → Bytes} {g : α → Bytes × Bytes}
    (h : ∀ x ∈ xs, parseField (line x) = some (g x)) : parseFields (xs.map line) = some (xs.map g) := by
  induction xs with
  | nil => rfl
  | cons x xs ih =>
    simp [parseFields, h x (List.mem_cons_self _ _), ih fun y hy => h y (List.mem_cons_of_mem _ hy)]

/-- A status line with a digit version, three digits and a reason of text bytes. -/
theorem parseStatusLine_eq {major minor : UInt8} (hmaj : isDigit major = true)
    (hmin : isDigit minor = true) {d₁ d₂ d₃ : Nat} (h₁ : d₁ < 10) (h₂ : d₂ < 10) (h₃ : d₃ < 10)
    (reason : Bytes) (hr : ∀ c ∈ reason, isTextByte c = true) :
    parseStatusLine (ascii "HTTP/" ++ [major, 46, minor, 32, digitByte d₁, digitByte d₂,
      digitByte d₃, 32] ++ reason) = some (d₁ * 100 + d₂ * 10 + d₃) := by
  have hd : ∀ {d : Nat}, d < 10 → (digitByte d).toNat - 48 = d := fun h => by
    rw [digitByte_toNat (by omega)]; simp [h]
  simp only [show ascii "HTTP/" = [72, 84, 84, 80, 47] from rfl, List.cons_append,
    List.nil_append, parseStatusLine]
  simp [hmaj, hmin, isDigit_digitByte, h₁, h₂, h₃, hd h₁, hd h₂, hd h₃, List.all_eq_true.mpr hr]

theorem length_le_renderLines (ls : List Bytes) : ls.length ≤ (renderLines ls).length := by
  induction ls with
  | nil => simp
  | cons l ls ih => simp [renderLines] at *; omega

/-- **A rendered head reads back**: its status code, its fields, and the bytes after it. -/
theorem parseHead_render {sl : Bytes} {fls : List Bytes} {code : Nat} {fs : List (Bytes × Bytes)}
    (hs : parseStatusLine sl = some code) (hf : parseFields fls = some fs)
    (hsafe : ∀ l ∈ sl :: fls, l ≠ [] ∧ LineSafe l) (rest : Bytes) :
    parseHead (renderLines (sl :: fls) ++ rest) = some (code, fs, rest) := by
  have hl := length_le_renderLines (sl :: fls)
  unfold parseHead
  rw [headLines_render _ hsafe rest _ (by rw [List.length_append]; omega)]
  simp [hs, hf]

/-! ### The message body -/

/-- How the body of a response is delimited (RFC 7230 §3.3.3). -/
inductive Framing
  | noBody
  | length (n : Nat)
  | chunked
  | untilClose
  deriving DecidableEq, Repr

/-- The values of the fields named `name`. -/
def fieldValues (name : Bytes) (fs : List (Bytes × Bytes)) : List Bytes :=
  (fs.filter fun f => f.1 = name).map Prod.snd

/-- The final transfer coding is `chunked`. -/
def endsChunked (tes : List Bytes) : Bool :=
  match (tes.flatMap fun v => v.splitOn 44).getLast? with
  | some c => (dropOws c).map asciiLower == ascii "chunked"
  | none => false

/-- §3.3.3 for a response to a request that is neither `HEAD` nor `CONNECT`: no body for `1xx`,
`204` and `304`; then `Transfer-Encoding`, then `Content-Length` (repeated values must agree);
otherwise the body runs to the close of the connection. -/
def framingOf (code : Nat) (fs : List (Bytes × Bytes)) : Option Framing :=
  if code < 200 ∨ code = 204 ∨ code = 304 then some .noBody
  else match fieldValues (ascii "transfer-encoding") fs with
    | [] =>
      match fieldValues (ascii "content-length") fs with
      | [] => some .untilClose
      | v :: vs => (readDecimal v).bind fun n => if vs.all (· = v) then some (.length n) else none
    | tes => some (if endsChunked tes then .chunked else .untilClose)

/-- The body under a framing, and the bytes after it. The connection stays open, so a body
delimited by its close is never complete. -/
def readBody : Framing → Bytes → Option (Bytes × Bytes)
  | .noBody, rest => some ([], rest)
  | .length n, rest => if n ≤ rest.length then some (rest.take n, rest.drop n) else none
  | .chunked, rest => readChunked rest
  | .untilClose, _ => none

/-- A response as a client reads it. -/
structure Response where
  status : Nat
  fields : List (Bytes × Bytes)
  body : Bytes
  deriving DecidableEq, Repr

/-- One complete response from the start of `input`, and the bytes after it. -/
def parseResponse (input : Bytes) : Option (Response × Bytes) :=
  (parseHead input).bind fun h =>
    (framingOf h.1 h.2.1).bind fun fr => (readBody fr h.2.2).map fun b => (⟨h.1, h.2.1, b.1⟩, b.2)

/-! ### Responses one after another -/

/-- Responses read one after another until the input is used up, at most `fuel` of them. -/
def parseResponses : Nat → Bytes → Option (List Response)
  | _, [] => some []
  | 0, _ :: _ => none
  | fuel + 1, input => (parseResponse input).bind fun r => (parseResponses fuel r.2).map (r.1 :: ·)

/-- The responses a client reads from all the bytes a connection sent. -/
def readResponses (input : Bytes) : Option (List Response) := parseResponses input.length input

@[simp] theorem parseResponses_nil (fuel : Nat) : parseResponses fuel [] = some [] := by
  cases fuel <;> rfl

/-- `out` is read as the responses `rs`, whatever follows it, and holds a byte for each. -/
structure ReadsAs (out : Bytes) (rs : List Response) : Prop where
  length_le : rs.length ≤ out.length
  parse : ∀ fuel rest, parseResponses (fuel + rs.length) (out ++ rest) =
    (parseResponses fuel rest).map (rs ++ ·)

namespace ReadsAs

theorem nil : ReadsAs [] [] := ⟨le_rfl, fun _ _ => by simp⟩

/-- One response that the reader takes off the front of whatever follows it. -/
theorem single {out : Bytes} {r : Response} (hne : out ≠ [])
    (h : ∀ rest, parseResponse (out ++ rest) = some (r, rest)) : ReadsAs out [r] := by
  obtain ⟨b, bs, rfl⟩ := List.exists_cons_of_ne_nil hne
  refine ⟨by simp, fun fuel rest => ?_⟩
  rw [List.length_singleton, parseResponses, h]
  · rfl
  · exact List.cons_ne_nil _ _

theorem append {o₁ o₂ : Bytes} {r₁ r₂ : List Response} (h₁ : ReadsAs o₁ r₁) (h₂ : ReadsAs o₂ r₂) :
    ReadsAs (o₁ ++ o₂) (r₁ ++ r₂) := by
  refine ⟨by simp only [List.length_append]; exact Nat.add_le_add h₁.length_le h₂.length_le,
    fun fuel rest => ?_⟩
  rw [List.length_append, Nat.add_comm r₁.length, ← Nat.add_assoc, List.append_assoc, h₁.parse,
    h₂.parse, Option.map_map]
  simp only [Function.comp_def, List.append_assoc]

/-- **The reader finds exactly the responses.** -/
theorem readResponses_eq {out : Bytes} {rs : List Response} (h : ReadsAs out rs) :
    readResponses out = some rs := by
  have := h.parse (out.length - rs.length) []
  rw [Nat.sub_add_cancel h.length_le, List.append_nil] at this
  simp [readResponses, this]

end ReadsAs

end ActixServerAlt.Rfc7230
