import ActixServerAlt.Bytes

/-!
# Errors and how a call ends

`super::error` is not in the source; the variants the encoder builds are modelled from their
uses. A call that takes `&mut` state ends in one of three ways (`Ret`): it returns a value, it
returns an error early through `?` (the state keeps what was written before), or it panics.
-/

namespace ActixServerAlt.H1

/-- Modelled from the spec: the `Parse` variants the encoder builds. -/
inductive Parse
  | statusCode
  | headerValue
  deriving DecidableEq, Repr

/-- Modelled from the spec: `ProtoError`, as the encoder builds it. -/
inductive ProtoError
  | parse (p : Parse)
  deriving DecidableEq, Repr

/-- `io::ErrorKind`, the one kind the encoder builds. -/
inductive IoErrorKind
  | unexpectedEof
  deriving DecidableEq, Repr

/-- `io::Error::new(kind, msg)`. -/
structure IoError where
  kind : IoErrorKind
  msg : String
  deriving DecidableEq, Repr

/-- How a call on a state `σ` with result `α` and error `ε` ends. -/
inductive Ret (ε σ α : Type)
  | ok (a : α) (s : σ)
  | err (e : ε) (s : σ)
  | panic (msg : String)
  deriving DecidableEq, Repr

/-- The result and final state of a call that does not panic. -/
def Ret.result {ε σ α : Type} : Ret ε σ α → Option (Except ε α × σ)
  | .ok a s => some (.ok a, s)
  | .err e s => some (.error e, s)
  | .panic _ => none

/-- The same call with its final state mapped. -/
def Ret.mapState {ε σ τ α : Type} (f : σ → τ) : Ret ε σ α → Ret ε τ α
  | .ok a s => .ok a (f s)
  | .err e s => .err e (f s)
  | .panic m => .panic m

/-- The message of `unreachable!()`. -/
def unreachableMsg : String := "internal error: entered unreachable code"

end ActixServerAlt.H1
