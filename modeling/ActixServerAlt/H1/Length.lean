import ActixServerAlt.H1.Transfer

/-!
# Length framing

A body with a declared length `n` is framed by `TransferEncoding::length(n)`: each `encode`
queues what is left of the `n` bytes and counts it down, and `encode_eof` checks that the count
reached zero. `length_framing` is the law over every declared length and every way the body is
cut into chunks, empty and overshooting ones included.
-/

namespace ActixServerAlt.H1

open TransferEncoding

/-- The total length of some chunks. -/
def total (cs : List Bytes) : Nat := (cs.map List.length).sum

@[simp] theorem total_nil : total [] = 0 := rfl

@[simp] theorem total_cons (c : Bytes) (cs : List Bytes) : total (c :: cs) = c.length + total cs := rfl

/-- What a call returns once the body is complete. -/
def finishedReply : Call → Reply
  | .encode _ => .encode (.ok true)
  | .encodeEof => .encodeEof (.ok ())

/-- The replies of the encodes of `cs` with `r` bytes expected: the `i`-th is `Ok(true)` exactly
when the first `i` chunks hold `r` bytes or more. -/
def lengthReplies (r : Nat) (cs : List Bytes) : List Reply :=
  cs.inits.tail.map fun p => .encode (.ok (decide (r ≤ total p)))

theorem lengthReplies_cons (r : Nat) (c : Bytes) (cs : List Bytes) :
    lengthReplies r (c :: cs) =
      .encode (.ok (decide (r ≤ c.length))) :: lengthReplies (r - c.length) cs := by
  cases cs <;> simp [lengthReplies, Function.comp_def, Nat.sub_le_iff_le_add, Nat.add_comm]

/-- A length encoder whose count is zero writes nothing and succeeds, whatever it is given. -/
theorem run_length_zero (buf : WriteBuf) (calls : List Call) :
    (length 0).run buf calls = some (calls.map finishedReply, length 0, buf) := by
  induction calls with
  | nil => rfl
  | cons c cs ih =>
    cases c with
    | encode msg =>
      rw [run_cons_of_step (@step_encode (length 0) (length 0) buf buf msg true rfl), ih]; rfl
    | encodeEof =>
      rw [run_cons_of_step (@step_encodeEof (length 0) (length 0) buf buf (.ok ()) rfl), ih]
      rfl

/-- The encodes of `cs` on a length encoder. -/
theorem run_length_encodes (n : UInt64) (cs : List Bytes) (buf : WriteBuf) :
    ∃ buf', (length n).run buf (cs.map .encode) =
        some (lengthReplies n.toNat cs, length (UInt64.ofNat (n.toNat - total cs)), buf') ∧
      buf.Appends (cs.flatten.take n.toNat) buf' := by
  induction cs generalizing n buf with
  | nil => exact ⟨buf, by simp [lengthReplies, u64_ofNat_toNat], by simpa using WriteBuf.Appends.refl buf⟩
  | cons c cs ih =>
    obtain ⟨b₁, h₁, a₁⟩ := encode_length n c buf
    have hn : (UInt64.ofNat (n.toNat - c.length)).toNat = n.toNat - c.length :=
      u64_toNat_ofNat (by have := n.toNat_lt_size; omega)
    obtain ⟨b₂, h₂, a₂⟩ := ih (UInt64.ofNat (n.toNat - c.length)) b₁
    refine ⟨b₂, ?_, ?_⟩
    · rw [List.map_cons, run_cons_of_step (step_encode h₁), h₂]
      simp [hn, lengthReplies_cons, Nat.sub_sub]
    · rw [List.flatten_cons, List.take_append_eq_append_take]
      exact a₁.trans (hn ▸ a₂)

theorem counter_toNat (n : UInt64) (k : Nat) :
    (UInt64.ofNat (n.toNat - k)).toNat = n.toNat - min n.toNat k := by
  rw [u64_toNat_ofNat (by have := n.toNat_lt_size; omega)]; omega

/-- **Length framing is exact.** For every declared length `n` and every cut of the body into
chunks, the encodes queue exactly the first `n` bytes of the body, each reports the end once
the chunks so far hold `n` bytes, the 64-bit counter after every call is the exact remainder
(it never wraps), `encode_eof` succeeds exactly when `n` bytes were delivered, and once the
count is zero every further call writes nothing and succeeds. -/
theorem length_framing (n : UInt64) (cs : List Bytes) (buf : WriteBuf) :
    ∃ buf', (length n).run buf (cs.map .encode ++ [.encodeEof]) =
        some (lengthReplies n.toNat cs ++
            [.encodeEof (if n.toNat ≤ total cs then .ok () else .error ⟨.unexpectedEof, ""⟩)],
          length (UInt64.ofNat (n.toNat - total cs)), buf') ∧
      buf'.queued = buf.queued ++ cs.flatten.take n.toNat ∧
      (∀ p ∈ cs.inits, ∃ rs b, (length n).run buf (p.map .encode) =
          some (rs, length (UInt64.ofNat (n.toNat - total p)), b) ∧
        (UInt64.ofNat (n.toNat - total p)).toNat = n.toNat - min n.toNat (total p)) ∧
      (n.toNat ≤ total cs → ∀ rest, (length n).run buf (cs.map .encode ++ rest) =
        some (lengthReplies n.toNat cs ++ rest.map finishedReply, length 0, buf')) := by
  obtain ⟨b, hrun, happ⟩ := run_length_encodes n cs buf
  have hm := counter_toNat n (total cs)
  refine ⟨b, ?_, happ.1, fun p _ => ?_, fun hle rest => ?_⟩
  · rw [run_append, hrun]
    by_cases h : n.toNat ≤ total cs
    · have h0 : (UInt64.ofNat (n.toNat - total cs)).toNat = 0 := by omega
      simp [run_cons, step, encodeEof_length, h0, h, Ret.result]
    · have h0 : (UInt64.ofNat (n.toNat - total cs)).toNat ≠ 0 := by omega
      simp [run_cons, step, encodeEof_length, h0, h, Ret.result]
  · obtain ⟨b', h', -⟩ := run_length_encodes n p buf
    exact ⟨_, b', h', counter_toNat n (total p)⟩
  · have h0 : UInt64.ofNat (n.toNat - total cs) = 0 := (u64_eq_zero_iff _).mpr (by omega)
    rw [run_append, hrun, Option.some_bind, h0, run_length_zero]; rfl

end ActixServerAlt.H1
