import ActixServerAlt.Http
import Mathlib.Data.Nat.Bitwise

/-!
# The per-connection context

`h1/proto/context.rs`: the state one HTTP/1 connection keeps across its requests.

* `ContextState`: the per-request flags `EXPECT`, `CONNECT` and `FORCE_CLOSE`, packed in a byte;
* `ConnectionType`: the disposition of the connection after the current response;
* `Context`: the flags, the disposition, the header map kept for reuse, and the cached date;
* `Context.View`, `context_refines_view`: what the accessors read, and the fact that under every
  sequence of `set_*` and `reset` calls the packed flags behave as three independent booleans.

The date is read through `&'a Date`, a clock cache outside the source; the context here holds
the value that cache shows while a call runs.
-/

namespace ActixServerAlt.H1

/-- `ContextState`: per-request flags packed in a byte. -/
structure ContextState where
  bits : UInt8
  deriving DecidableEq, Repr

namespace ContextState

/-- `EXPECT`: the request carried `Expect: 100-continue`. -/
def expect : ContextState := ⟨0b0001⟩

/-- `CONNECT`: the request method is `CONNECT`. -/
def connect : ContextState := ⟨0b0010⟩

/-- `FORCE_CLOSE`: the connection must close after the current response. -/
def forceClose : ContextState := ⟨0b0100⟩

/-- `ContextState::new`. -/
def new : ContextState := ⟨0⟩

/-- `ContextState::insert`. -/
def insert (s other : ContextState) : ContextState := ⟨s.bits ||| other.bits⟩

/-- `ContextState::contains`. -/
def contains (s other : ContextState) : Bool := (s.bits &&& other.bits) == other.bits

end ContextState

/-- `ConnectionType`. -/
inductive ConnectionType
  | init
  | close
  | keepAlive
  | upgrade
  deriving DecidableEq, Repr

/-- `Context`. -/
structure Context where
  state : ContextState
  ctype : ConnectionType
  headerCache : Option HeaderMap
  /-- Modelled from the spec: `self.date.get().date()`, the cached HTTP-date (`util::date` is
  not in the source), a fixed-width visible-ASCII value. -/
  date : HeaderValue

namespace Context

/-- `Context::new`. -/
def new (date : HeaderValue) : Context := ⟨ContextState.new, .init, none, date⟩

/-- `Context::is_expect_header`. -/
def isExpectHeader (ctx : Context) : Bool := ctx.state.contains .expect

/-- `Context::is_connect_method`. -/
def isConnectMethod (ctx : Context) : Bool := ctx.state.contains .connect

/-- `Context::is_force_close`. -/
def isForceClose (ctx : Context) : Bool := ctx.state.contains .forceClose

/-- `Context::reset`. -/
def reset (ctx : Context) : Context := { ctx with ctype := .keepAlive, state := .new }

/-- `Context::set_expect_header`. -/
def setExpectHeader (ctx : Context) : Context := { ctx with state := ctx.state.insert .expect }

/-- `Context::set_connect_method`. -/
def setConnectMethod (ctx : Context) : Context := { ctx with state := ctx.state.insert .connect }

/-- `Context::set_force_close`. -/
def setForceClose (ctx : Context) : Context :=
  { ctx with state := ctx.state.insert .forceClose }

/-- `Context::set_ctype`. -/
def setCtype (ctx : Context) (ctype : ConnectionType) : Context := { ctx with ctype := ctype }

@[simp] theorem setCtype_ctype (ctx : Context) (c : ConnectionType) : (ctx.setCtype c).ctype = c :=
  rfl

@[simp] theorem setCtype_state (ctx : Context) (c : ConnectionType) :
    (ctx.setCtype c).state = ctx.state := rfl

@[simp] theorem setCtype_date (ctx : Context) (c : ConnectionType) :
    (ctx.setCtype c).date = ctx.date := rfl

@[simp] theorem setCtype_headerCache (ctx : Context) (c : ConnectionType) :
    (ctx.setCtype c).headerCache = ctx.headerCache := rfl

@[simp] theorem isForceClose_setCtype (ctx : Context) (c : ConnectionType) :
    (ctx.setCtype c).isForceClose = ctx.isForceClose := rfl

@[simp] theorem isConnectMethod_setCtype (ctx : Context) (c : ConnectionType) :
    (ctx.setCtype c).isConnectMethod = ctx.isConnectMethod := rfl

end Context

/-! ### The flags are three independent booleans -/

namespace ContextState

/-- The three flags. -/
inductive Flag
  | expect
  | connect
  | forceClose
  deriving DecidableEq, Repr

/-- The constant of a flag. -/
def Flag.state : Flag → ContextState
  | .expect => ContextState.expect
  | .connect => ContextState.connect
  | .forceClose => ContextState.forceClose

/-- The bit a flag's constant sets. -/
def Flag.bit : Flag → Nat
  | .expect => 0
  | .connect => 1
  | .forceClose => 2

theorem Flag.state_bits (f : Flag) : f.state.bits.toNat = 2 ^ f.bit := by cases f <;> rfl

theorem Flag.bit_inj {f g : Flag} : f.bit = g.bit ↔ f = g := by cases f <;> cases g <;> decide

/-- `contains` of a flag reads its bit. -/
theorem contains_eq_testBit (s : ContextState) (f : Flag) :
    s.contains f.state = s.bits.toNat.testBit f.bit := by
  have hk : (s.bits &&& f.state.bits = f.state.bits) ↔
      (s.bits.toNat.testBit f.bit).toNat * 2 ^ f.bit = 2 ^ f.bit := by
    rw [← Nat.and_two_pow, ← f.state_bits, ← UInt8.and_toNat]
    exact ⟨congrArg UInt8.toNat, fun h => UInt8.eq_of_val_eq (Fin.eq_of_val_eq h)⟩
  unfold contains
  rw [Bool.eq_iff_iff, beq_iff_eq, hk]
  cases s.bits.toNat.testBit f.bit <;> simp [(Nat.two_pow_pos f.bit).ne]

/-- Inserting a flag sets its bit and keeps the others. -/
theorem contains_insert (s : ContextState) (f g : Flag) :
    (s.insert g.state).contains f.state = (s.contains f.state || decide (g = f)) := by
  rw [contains_eq_testBit, contains_eq_testBit, insert]
  simp only [show ∀ a b : UInt8, (a ||| b).toNat = a.toNat ||| b.toNat from
      fun a b => BitVec.toNat_or .., Nat.testBit_or, g.state_bits, Nat.testBit_two_pow, Flag.bit_inj]

theorem contains_new (f : Flag) : new.contains f.state = false := by cases f <;> rfl

theorem expect_eq : expect = Flag.expect.state := rfl

theorem connect_eq : connect = Flag.connect.state := rfl

theorem forceClose_eq : forceClose = Flag.forceClose.state := rfl

end ContextState

namespace Context

open ContextState

/-- What the accessors of a context read: the three flags and the disposition. -/
structure View where
  expect : Bool
  connect : Bool
  forceClose : Bool
  ctype : ConnectionType
  deriving DecidableEq, Repr

/-- A call that changes the context. -/
inductive Update
  | setExpectHeader
  | setConnectMethod
  | setForceClose
  | setCtype (ctype : ConnectionType)
  | reset
  deriving DecidableEq, Repr

/-- What a call should do, as the accessors see it: set one flag, replace the disposition, or
clear every flag and keep the connection alive. -/
def View.update (v : View) : Update → View
  | .setExpectHeader => { v with expect := true }
  | .setConnectMethod => { v with connect := true }
  | .setForceClose => { v with forceClose := true }
  | .setCtype ctype => { v with ctype }
  | .reset => ⟨false, false, false, .keepAlive⟩

/-- The call on a context. -/
def update (ctx : Context) : Update → Context
  | .setExpectHeader => ctx.setExpectHeader
  | .setConnectMethod => ctx.setConnectMethod
  | .setForceClose => ctx.setForceClose
  | .setCtype ctype => ctx.setCtype ctype
  | .reset => ctx.reset

/-- What the accessors read. -/
def view (ctx : Context) : View := ⟨ctx.isExpectHeader, ctx.isConnectMethod, ctx.isForceClose, ctx.ctype⟩

theorem view_new (date : HeaderValue) : (new date).view = ⟨false, false, false, .init⟩ := by
  simp only [view, new, isExpectHeader, isConnectMethod, isForceClose, expect_eq, connect_eq,
    forceClose_eq, contains_new]

/-- One call does what `View.update` says. -/
theorem view_update (ctx : Context) (u : Update) : (ctx.update u).view = ctx.view.update u := by
  cases u <;> simp [update, view, View.update, isExpectHeader, isConnectMethod, isForceClose,
    setExpectHeader, setConnectMethod, setForceClose, setCtype, reset, expect_eq, connect_eq,
    forceClose_eq, contains_insert, contains_new]

/-- **The context refines its view.** Under every sequence of `set_*`, `set_ctype` and `reset`
calls, the accessors read what `View.update` says: each `set_*` sets its own flag and no other,
and `reset` clears the three. -/
theorem context_refines_view (ctx : Context) (us : List Update) :
    (us.foldl update ctx).view = us.foldl View.update ctx.view := by
  induction us generalizing ctx with
  | nil => rfl
  | cons u us ih => rw [List.foldl_cons, List.foldl_cons, ih, view_update]

end Context

end ActixServerAlt.H1
