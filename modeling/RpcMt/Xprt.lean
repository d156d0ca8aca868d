import Mathlib.Logic.Function.Basic
import RpcMt.Bitvec

/-! The transport handle: `SVCXPRT` of `rpc/svc.h` with the `mtxprt` extension of `svc_mtxprt.h`
appended to it. What a transport keeps in its private pointers (`xp_p1`, `xp_p2`, `xp_pad`) depends
on its kind and is a type parameter. -/

namespace RpcMt

/-- `enum xprt_stat`. -/
inductive XprtStat where
  | died
  | morereqs
  | idle
  deriving DecidableEq, Repr

/-- The bits of `mtxp_progress`, one constructor for each `XPRT_` flag. -/
inductive Milestone where
  | doneRecv
  | doneRead
  | getargs
  | dispatch
  | reply
  | freeargs
  | wait
  | returned
  deriving DecidableEq, Repr

/-- The value of `mtxp_progress`: which milestones are set. -/
def Progress := Milestone → Bool

namespace Progress

def zero : Progress := fun _ => false

/-- `xprt_progress_setbits` with one flag. -/
def setbits (p : Progress) (m : Milestone) : Progress := fun k => decide (k = m) || p k

/-- `xprt_progress_clrbits` with one flag. -/
def clrbits (p : Progress) (m : Milestone) : Progress := fun k => !decide (k = m) && p k

@[simp] theorem zero_apply (k : Milestone) : zero k = false := rfl

@[simp] theorem setbits_apply (p : Progress) (m k : Milestone) :
    p.setbits m k = (decide (k = m) || p k) := rfl

@[simp] theorem clrbits_apply (p : Progress) (m k : Milestone) :
    p.clrbits m k = (!decide (k = m) && p k) := rfl

end Progress

/-- `struct sockaddr_in`, compared byte for byte by `EQADDR`. -/
structure SockaddrIn where
  sinFamily : Nat
  sinPort : Nat
  sinAddr : Nat
  sinZero : Nat
  deriving DecidableEq, Repr

/-- The configuration variables of `svc_config.c` that the dispatcher and the transports read. -/
structure Config where
  mtmode : Nat
  waitMethodTcp : Nat
  waitMethodUdp : Nat
  failfast : Bool
  waitTraceInterval : Int
  jiffy : Int
  deriving DecidableEq, Repr

def waitMutex : Nat := 1

def waitUsleep : Nat := 2

/-- The values of `svc_config.c`. -/
def defaultConfig : Config :=
  { mtmode := 1
    waitMethodTcp := waitMutex
    waitMethodUdp := waitMutex
    failfast := false
    waitTraceInterval := 5
    jiffy := 1000000 }

/-- `XPRT_ID_INVALID`. -/
def xprtIdInvalid : Nat := sizeMax

/-- `NO_PARENT`. -/
def noParent : Nat := sizeMax

/-- An extended `SVCXPRT`. `mtxpMtready` tells whether the mutex `mtxp_mtready` is locked; `mtxpClone`
tells whether the method pointer `mtxp_clone` is set. -/
structure Svcxprt (π : Type) where
  xpSock : Nat
  xpPort : Nat
  xpAddrlen : Nat
  xpRaddr : SockaddrIn
  xpPriv : π
  mtxpId : Nat
  mtxpMtready : Bool
  mtxpParent : Nat
  mtxpRefcnt : Int
  mtxpBusy : Nat
  mtxpProgress : Progress
  mtxpClone : Bool
  mtxpStat : XprtStat

/-- Where an object lives on the heap. -/
abbrev Addr := Nat

/-- What is found on a heap after a store: the value stored, or what was there before. -/
theorem update_eq_some {X : Type} {heap : Addr → Option X} {a b : Addr} {x y : X}
    (h : Function.update heap a (some x) b = some y) : (b = a ∧ y = x) ∨ (b ≠ a ∧ heap b = some y) := by
  by_cases hb : b = a
  · rw [hb, Function.update_self] at h
    exact Or.inl ⟨hb, (Option.some.inj h).symm⟩
  · rw [Function.update_of_ne hb] at h
    exact Or.inr ⟨hb, h⟩

theorem update_none_eq_some {X : Type} {heap : Addr → Option X} {a b : Addr} {y : X}
    (h : Function.update heap a none b = some y) : b ≠ a ∧ heap b = some y := by
  by_cases hb : b = a
  · rw [hb, Function.update_self] at h
    cases h
  · rw [Function.update_of_ne hb] at h
    exact ⟨hb, h⟩

/-- A `SVCXPRT *` as the registry stores it. -/
inductive XprtPtr where
  | null
  | bad
  | ref (a : Addr)
  deriving DecidableEq, Repr

namespace Svcxprt

variable {π : Type}

/-- `xprt_is_reusable`. -/
def isReusable (x : Svcxprt π) : Bool :=
  x.xpPort == 0 && x.mtxpParent == noParent && x.mtxpStat != .died

/-- `xprt_progress_setbits` on the transport. -/
def setProgress (x : Svcxprt π) (m : Milestone) : Svcxprt π :=
  { x with mtxpProgress := x.mtxpProgress.setbits m }

/-- `xprt_progress_clrbits` on the transport. -/
def clrProgress (x : Svcxprt π) (m : Milestone) : Svcxprt π :=
  { x with mtxpProgress := x.mtxpProgress.clrbits m }

/-- `xprt_set_busy`. -/
def setBusy (x : Svcxprt π) (value : Nat) : Svcxprt π := { x with mtxpBusy := value }

def unlockMtready (x : Svcxprt π) : Svcxprt π := { x with mtxpMtready := false }

/-- A transport as its constructor hands it to `xprt_register`: no id yet, no parent, `mtxp_mtready`
locked. `mtxp_stat` is whatever the allocated memory held. -/
def newXprt (sock port : Nat) (clone : Bool) (priv : π) (stat : XprtStat) : Svcxprt π :=
  { xpSock := sock
    xpPort := port
    xpAddrlen := 0
    xpRaddr := ⟨0, 0, 0, 0⟩
    xpPriv := priv
    mtxpId := xprtIdInvalid
    mtxpMtready := true
    mtxpParent := noParent
    mtxpRefcnt := 0
    mtxpBusy := 0
    mtxpProgress := .zero
    mtxpClone := clone
    mtxpStat := stat }

/-- What `svcudp_xprt_clone` makes of the `mtxprt` part: a copy that has no id yet, knows its parent,
and starts with `mtxp_mtready` locked. -/
def cloneXprt (x : Svcxprt π) (priv : π) : Svcxprt π :=
  { x with
    xpPriv := priv
    mtxpId := xprtIdInvalid
    mtxpMtready := true
    mtxpParent := x.mtxpId
    mtxpRefcnt := 0
    mtxpBusy := 0
    mtxpProgress := .zero }

/-- Everything but the reference count, which is the one field that operations on other transports
change. -/
def core (x : Svcxprt π) : Svcxprt π := { x with mtxpRefcnt := 0 }

theorem exists_of_map_core {o o' : Option (Svcxprt π)} {x : Svcxprt π}
    (h : o.map core = o'.map core) (hx : o = some x) : ∃ x', o' = some x' ∧ x.core = x'.core := by
  subst hx
  cases o' with
  | none => cases h
  | some x' => exact ⟨x', rfl, Option.some.inj h⟩

theorem mtxpId_of_core {x y : Svcxprt π} (h : x.core = y.core) : x.mtxpId = y.mtxpId := by
  have hid : x.core.mtxpId = y.core.mtxpId := by rw [h]
  exact hid

end Svcxprt

/-- A set of transport ids, as the registry uses one. -/
class IdSet (β : Type) where
  init : Nat → β
  setBit : β → Nat → Res β
  clrBit : β → Nat → Res β
  getBit : β → Nat → Res Bool

instance bitvecIdSet : IdSet Bitvec where
  init := Bitvec.bitvecInit
  setBit := Bitvec.bitvecSetBit
  clrBit := Bitvec.bitvecClrBit
  getBit := Bitvec.bitvecGetBit

end RpcMt
