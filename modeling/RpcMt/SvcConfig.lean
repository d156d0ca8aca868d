import RpcMt.Bitvec
import RpcMt.XdrTypes

/-! The configuration of a service, `svc_config.c`. A command is a name, with an argument behind `=`; each
name has a setter for one of the variables. A setter gives an error code, and the variables as it leaves
them. Characters are those before the NUL; an argument that is missing is a null pointer. -/

namespace RpcMt

/-- `struct fd_region`. -/
structure FdRegion where
  lo : Int
  hi : Int
  order : Int
  deriving DecidableEq, Repr

namespace SvcConfig

inductive Errno where
  | einval
  | efault
  | enoent
  deriving DecidableEq, Repr

structure Config where
  socketFdRegion : FdRegion
  mtmode : Int
  failfast : Bool
  jiffy : Int
  optSvcTrace : Int
  ioTrace : Bool
  sysBreak : Bool
  deriving DecidableEq, Repr

/-- The variables as they are initialised. -/
def initial : Config :=
  { socketFdRegion := ⟨64, 1023, -1⟩
    mtmode := 1
    failfast := false
    jiffy := 1000000
    optSvcTrace := 0
    ioTrace := false
    sysBreak := false }

/-- The value of a character that is a digit. -/
def digit (c : Char) : Option Int := if '0' ≤ c ∧ c ≤ '9' then some (c.toNat - '0'.toNat) else none

/-- The loop over the digits of a bound, `n` so far: the number, and what is left at a separator or at the
end. -/
def bound (n : Int) : List Char → Option (Int × List Char)
  | [] => some (n, [])
  | c :: arg =>
      if c = ',' ∨ c = '-' then some (n, c :: arg)
      else (digit c).bind fun d => bound (castInt 32 (castInt 32 (n * 10) + d)) arg

/-- What `svc_config_set_fd_range` does once it has seen that the range is not `none`. -/
def setFdBounds (arg : List Char) (s : Config) : Option Errno × Config :=
  match bound 0 arg with
  | none => (some .einval, s)
  | some (lo, arg) =>
      let s := { s with socketFdRegion.lo := lo }
      match arg with
      | [] => (some .einval, s)
      | _ :: arg =>
          match bound 0 arg with
          | none => (some .einval, s)
          | some (hi, arg) =>
              let s := { s with socketFdRegion.hi := hi }
              match arg with
              | [] => (some .einval, s)
              | _ :: arg =>
                  if arg.head? = some '-' then (none, { s with socketFdRegion.order := -1 })
                  else if arg.head? = some '+' then (none, { s with socketFdRegion.order := 1 })
                  else (some .einval, s)

/-- A setter, given its argument. -/
abbrev Setter := Option (List Char) → Config → Res (Option Errno × Config)

def svcConfigSetFdRange : Setter
  | none, _ => .error .badPointer
  | some arg, s =>
      if arg = "none".toList then .ok (none, { s with socketFdRegion := ⟨0, 0, 0⟩ }) else .ok (setFdBounds arg s)

def svcConfigSetMtmode : Setter
  | some [c], s =>
      if c = '0' ∨ c = '1' ∨ c = '2' then .ok (none, { s with mtmode := c.toNat - '0'.toNat })
      else .ok (some .einval, s)
  | _, s => .ok (some .efault, s)

/-- The loop of `svc_config_set_jiffy`, in `long` arithmetic. -/
def numeral (n : Int) : List Char → Option Int
  | [] => some n
  | c :: arg => (digit c).bind fun d => numeral (castInt 64 (castInt 64 (n * 10) + d)) arg

def svcConfigSetJiffy : Setter
  | none, _ => .error .badPointer
  | some arg, s =>
      match numeral 0 arg with
      | none => .ok (some .einval, s)
      | some n => .ok (none, { s with jiffy := n })

def svcConfigSetTrace : Setter
  | none, s => .ok (some .efault, s)
  | some [c], s =>
      match digit c with
      | some d => .ok (none, { s with optSvcTrace := d })
      | none => .ok (some .einval, s)
  | some _, s => .ok (some .einval, s)

def svcConfigLookup (cmd : List Char) (arg : Option (List Char)) (s : Config) : Res (Option Errno × Config) :=
  if cmd = "fd-range".toList then svcConfigSetFdRange arg s
  else if cmd = "mtmode".toList then svcConfigSetMtmode arg s
  else if cmd = "failfast".toList then .ok (none, { s with failfast := true })
  else if cmd = "nofailfast".toList then .ok (none, { s with failfast := false })
  else if cmd = "jiffy".toList then svcConfigSetJiffy arg s
  else if cmd = "trace".toList then svcConfigSetTrace arg s
  else if cmd = "io-trace".toList then .ok (none, { s with ioTrace := true })
  else if cmd = "sys-break".toList then .ok (none, { s with sysBreak := true })
  else .ok (some .enoent, s)

/-- `svc_config`, at the position behind `name`. -/
def svcConfigFrom (name : List Char) : List Char → Config → Res (Option Errno × Config)
  | [], s => svcConfigLookup name none s
  | c :: cmd, s =>
      if c = ' ' then svcConfigLookup name none s
      else if c = '=' then svcConfigLookup name (some cmd) s
      else svcConfigFrom (name ++ [c]) cmd s

def svcConfig (cmd : List Char) (s : Config) : Res (Option Errno × Config) := svcConfigFrom [] cmd s

end SvcConfig

end RpcMt
