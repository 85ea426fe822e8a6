import ActixServerAlt.Bytes

/-!
# Write buffers

`super::buf` is not in the source; its `WriteBuf`, `BufList` and `EncodedBuf` are modelled from
the spec and from how the encoder calls them. A write buffer is either one flat byte buffer or
a list of fragments: the fragment list (`list_mut`, `buffer`) and a scratch buffer
(`buf_mut`) that the head encoder fills and then splits off as one fragment.

`WriteBuf.queued` is what the buffer hands to the transport: the flat bytes, or the fragments
in order. The scratch buffer is not queued until it is split off.
-/

namespace ActixServerAlt.H1

/-- Modelled from the spec: `EncodedBuf`, one fragment of a list buffer. -/
inductive EncodedBuf
  | buf (bytes : Bytes)
  | static (bytes : Bytes)
  deriving DecidableEq, Repr

/-- The bytes of a fragment. -/
def EncodedBuf.bytes : EncodedBuf → Bytes
  | .buf b => b
  | .static b => b

/-- Modelled from the spec: `BufList`, the fragments queued in order and the scratch buffer
behind `buf_mut`. -/
structure BufList where
  list : List EncodedBuf
  buf : Bytes
  deriving DecidableEq, Repr

/-- Modelled from the spec: `BufList::buffer`, which queues one fragment. -/
def BufList.buffer (l : BufList) (b : EncodedBuf) : BufList := { l with list := l.list ++ [b] }

/-- Modelled from the spec: `WriteBuf`. -/
inductive WriteBuf
  | flat (bytes : Bytes)
  | list (l : BufList)
  deriving DecidableEq, Repr

/-- The bytes a buffer queues for the transport. -/
def WriteBuf.queued : WriteBuf → Bytes
  | .flat b => b
  | .list l => l.list.flatMap EncodedBuf.bytes

@[simp] theorem BufList.buffer_list (l : BufList) (b : EncodedBuf) :
    (l.buffer b).list = l.list ++ [b] := rfl

@[simp] theorem BufList.buffer_buf (l : BufList) (b : EncodedBuf) : (l.buffer b).buf = l.buf :=
  rfl

@[simp] theorem queued_flat (b : Bytes) : (WriteBuf.flat b).queued = b := rfl

@[simp] theorem queued_list_buffer (l : BufList) (b : EncodedBuf) :
    (WriteBuf.list (l.buffer b)).queued = (WriteBuf.list l).queued ++ b.bytes := by
  simp [WriteBuf.queued]

@[simp] theorem EncodedBuf.bytes_buf (b : Bytes) : (EncodedBuf.buf b).bytes = b := rfl

@[simp] theorem EncodedBuf.bytes_static (b : Bytes) : (EncodedBuf.static b).bytes = b := rfl

/-- The scratch buffer of a list buffer; a flat buffer has none. -/
def WriteBuf.scratch : WriteBuf → Option Bytes
  | .flat _ => none
  | .list l => some l.buf

/-- `buf'` is `buf` with `out` queued after what it held, in the same mode and with the same
scratch buffer. -/
def WriteBuf.Appends (buf : WriteBuf) (out : Bytes) (buf' : WriteBuf) : Prop :=
  buf'.queued = buf.queued ++ out ∧ buf'.scratch = buf.scratch

namespace WriteBuf

theorem Appends.refl (buf : WriteBuf) : buf.Appends [] buf := ⟨by simp, rfl⟩

theorem Appends.trans {b₁ b₂ b₃ : WriteBuf} {o₁ o₂ : Bytes} (h₁ : b₁.Appends o₁ b₂)
    (h₂ : b₂.Appends o₂ b₃) : b₁.Appends (o₁ ++ o₂) b₃ :=
  ⟨by rw [h₂.1, h₁.1, List.append_assoc], h₂.2.trans h₁.2⟩

theorem appends_flat (b out : Bytes) : (flat b).Appends out (flat (b ++ out)) := ⟨rfl, rfl⟩

theorem appends_buffer (l : BufList) (e : EncodedBuf) :
    (list l).Appends e.bytes (list (l.buffer e)) := ⟨by simp, rfl⟩

/-- `buf'` is `buf` with what its scratch buffer held and then `out` queued, and its scratch
buffer emptied: what staging `out` in the scratch buffer and splitting it off does. -/
def Flushes (buf : WriteBuf) (out : Bytes) (buf' : WriteBuf) : Prop :=
  buf'.queued = buf.queued ++ buf.scratch.getD [] ++ out ∧ buf'.scratch = buf.scratch.map fun _ => []

/-- From an empty scratch buffer, flushing is appending. -/
theorem Flushes.appends {buf buf' : WriteBuf} {out : Bytes} (h : buf.Flushes out buf')
    (hs : buf.scratch.getD [] = []) : buf.Appends out buf' := by
  refine ⟨by rw [h.1, hs, List.append_nil], ?_⟩
  rw [h.2]
  cases h' : buf.scratch <;> simp_all

end WriteBuf

end ActixServerAlt.H1
