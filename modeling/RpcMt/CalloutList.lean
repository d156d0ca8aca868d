import RpcMt.Callouts
import RpcMt.Links

/-! The callout list of `svc.c` on its heap: `svc_find`, `svc_register`, `svc_unregister` and the walk
of `request_match_prog_version`, with the links and the flag `sc_mapped` that `Callouts.lean` leaves
out. The walks run with as much fuel as there are callouts allocated: one that goes on after that many
goes round in a circle. -/

namespace RpcMt

open Links

/-- The values of `rpcprog_t`, `rpcvers_t` and `rpcproc_t`, all `unsigned long`. -/
abbrev RpcUlong := Fin sizeRange

instance : NeZero sizeRange := ⟨Nat.ne_of_gt (Nat.two_pow_pos 64)⟩

/-- The address of a `struct svc_callout`. -/
abbrev CalloutId := Nat

/-- What a callout says besides its link. -/
structure SvcEntry (H : Type) where
  scProg : RpcUlong
  scVers : RpcUlong
  scDispatch : H
  scMapped : Bool
  deriving DecidableEq

structure SvcCallout (H : Type) where
  scNext : Option CalloutId
  entry : SvcEntry H
  deriving DecidableEq

/-- `svc_head` and the callouts in memory. `allocated` counts those that `svc_l1_alloc` gave out and
`free` has not taken back. -/
structure SvcTable (H : Type) where
  svcHead : Option CalloutId
  callouts : CalloutId → Option (SvcCallout H)
  allocated : Nat

/-- One mapping of the local binder. -/
structure Pmap where
  prog : RpcUlong
  vers : RpcUlong
  prot : RpcUlong
  port : Nat
  deriving DecidableEq

abbrev Binder := List Pmap

namespace Binder

/-- A `pmap_set` that is granted. -/
def pmapSet (b : Binder) (prog vers prot : RpcUlong) (port : Nat) : Binder := ⟨prog, vers, prot, port⟩ :: b

/-- `pmap_unset`: the mappings of a program and version, whatever their protocol. -/
def pmapUnset (b : Binder) (prog vers : RpcUlong) : Binder :=
  b.filter fun m => !(m.prog = prog ∧ m.vers = vers)

/-- The binder maps a program and version under some protocol. -/
def Maps (b : Binder) (prog vers : RpcUlong) : Prop := ∃ m ∈ b, m.prog = prog ∧ m.vers = vers

instance (b : Binder) (prog vers : RpcUlong) : Decidable (b.Maps prog vers) :=
  inferInstanceAs (Decidable (∃ m ∈ b, _))

end Binder

variable {H : Type}

namespace SvcTable

variable (tab : SvcTable H)

def empty : SvcTable H := ⟨none, fun _ => none, 0⟩

def callout (s : CalloutId) : Res (SvcCallout H) :=
  match tab.callouts s with
  | none => .error .badPointer
  | some c => .ok c

def write (s : CalloutId) (c : SvcCallout H) : SvcTable H :=
  { tab with callouts := Function.update tab.callouts s (some c) }

def free (s : CalloutId) : SvcTable H :=
  { tab with callouts := Function.update tab.callouts s none, allocated := tab.allocated - 1 }

/-- The loop of `svc_find`, with its variables `p` and `s`. -/
def svcFindLoop (prog vers : RpcUlong) :
    Nat → Option CalloutId → Option CalloutId → Res (Option CalloutId × Option CalloutId)
  | _, p, none => .ok (p, none)
  | 0, _, some _ => .error .noReturn
  | fuel + 1, p, some s => do
      let c ← tab.callout s
      if c.entry.scProg = prog ∧ c.entry.scVers = vers then pure (p, some s)
      else svcFindLoop prog vers fuel (some s) c.scNext

/-- `svc_find`: what it stores through `prev`, and what it returns. -/
def svcFind (prog vers : RpcUlong) : Res (Option CalloutId × Option CalloutId) :=
  tab.svcFindLoop prog vers tab.allocated none tab.svcHead

def svcIsMapped (prog vers : RpcUlong) : Res Bool := do
  match (← tab.svcFind prog vers).2 with
  | none => pure false
  | some s => do
      let c ← tab.callout s
      pure c.entry.scMapped

/-- The new callout of `svc_register`, at the address `svc_l1_alloc` gives. -/
def push (s : CalloutId) (prog vers : RpcUlong) (dispatch : H) : SvcTable H :=
  { svcHead := some s
    callouts := Function.update tab.callouts s (some ⟨tab.svcHead, ⟨prog, vers, dispatch, false⟩⟩)
    allocated := tab.allocated + 1 }

/-- What `svc_register` is asked for. -/
structure Request (H : Type) where
  prog : RpcUlong
  vers : RpcUlong
  dispatch : H
  protocol : RpcUlong
  xpPort : Nat
  deriving DecidableEq

/-- `svc_register` from the label `pmap_it` on; `granted` is what `pmap_set` answers. -/
def pmapIt (binder : Binder) (rq : Request H) (granted : Bool) (s : CalloutId) :
    Res (Bool × SvcTable H × Binder) :=
  if rq.protocol.val ≠ 0 then
    if granted then do
      let c ← tab.callout s
      pure (true, tab.write s { c with entry.scMapped := true },
        binder.pmapSet rq.prog rq.vers rq.protocol rq.xpPort)
    else pure (false, tab, binder)
  else pure (true, tab, binder)

/-- `svc_register` on a transport that passes its check. `fresh` is the address `svc_l1_alloc` gives if
it is called; what that stores in `l1_vec` is left to `CalloutOwnership.World.svcRegister`. -/
def svcRegister [DecidableEq H] (binder : Binder) (rq : Request H) (fresh : CalloutId) (granted : Bool) :
    Res (Bool × SvcTable H × Binder) := do
  match (← tab.svcFind rq.prog rq.vers).2 with
  | some s => do
      let c ← tab.callout s
      if c.entry.scDispatch = rq.dispatch then tab.pmapIt binder rq granted s
      else pure (false, tab, binder)
  | none => (tab.push fresh rq.prog rq.vers rq.dispatch).pmapIt binder rq granted fresh

/-- The link to a callout re-pointed past it: `svc_head`, or that of the callout before. -/
def bypass (prev : Option CalloutId) (next : Option CalloutId) : Res (SvcTable H) :=
  match prev with
  | none => .ok { tab with svcHead := next }
  | some p => do
      let c ← tab.callout p
      pure (tab.write p { c with scNext := next })

/-- `svc_unregister`. The callout is freed before `svc_is_mapped` looks for it. -/
def svcUnregister (binder : Binder) (prog vers : RpcUlong) : Res (SvcTable H × Binder) := do
  let (prev, s) ← tab.svcFind prog vers
  match s with
  | none => pure (tab, binder)
  | some s => do
      let c ← tab.callout s
      let linked ← tab.bypass prev c.scNext
      let tab' := linked.free s
      if !(← tab'.svcIsMapped prog vers) then pure (tab', binder.pmapUnset prog vers)
      else pure (tab', binder)

/-- The loop of `request_match_prog_version`, with its variables. -/
def matchLoop (prog vers : RpcUlong) : Nat → Option CalloutId → Nat → Nat → Bool → Res (Lookup H)
  | _, none, lowVers, highVers, progFound =>
      .ok (if progFound then .progVers lowVers highVers else .noProg)
  | 0, some _, _, _, _ => .error .noReturn
  | fuel + 1, some s, lowVers, highVers, progFound => do
      let c ← tab.callout s
      if c.entry.scProg = prog then
        if c.entry.scVers = vers then pure (.dispatch c.entry.scDispatch)
        else
          matchLoop prog vers fuel c.scNext
            (if c.entry.scVers.val < lowVers then c.entry.scVers.val else lowVers)
            (if highVers < c.entry.scVers.val then c.entry.scVers.val else highVers) true
      else matchLoop prog vers fuel c.scNext lowVers highVers progFound

/-- `request_match_prog_version` for the program and version of a request. -/
def requestMatchProgVersion (prog vers : RpcUlong) : Res (Lookup H) :=
  tab.matchLoop prog vers tab.allocated tab.svcHead sizeMax 0 false

end SvcTable

end RpcMt
