import RpcMt.UdpCache

/-! From a received call message to its service: `request_lookup` and `request_match_prog_version` of
`svc.c`. The callout list is walked from its head; the first callout with the program and the version
of the request is dispatched to, else the client is told that there is no such program, or which
versions of it there are. -/

namespace RpcMt

/-- `struct svc_callout`; a handler stands for `sc_dispatch`. -/
structure Callout (H : Type) where
  scProg : Nat
  scVers : Nat
  scDispatch : H

/-- How `request_lookup` ends. -/
inductive Lookup (H : Type) where
  | dispatch (h : H)
  | authError
  | noProg
  | progVers (lowVers highVers : Nat)

variable {H : Type}

/-- The loop of `request_match_prog_version`, with its three running variables. -/
def matchProgVersion (prog vers : Nat) : List (Callout H) → Nat → Nat → Bool → Lookup H
  | [], lowVers, highVers, progFound =>
      if progFound then .progVers lowVers highVers else .noProg
  | s :: svcs, lowVers, highVers, progFound =>
      if s.scProg = prog then
        if s.scVers = vers then .dispatch s.scDispatch
        else matchProgVersion prog vers svcs (if s.scVers < lowVers then s.scVers else lowVers)
          (if highVers < s.scVers then s.scVers else highVers) true
      else matchProgVersion prog vers svcs lowVers highVers progFound

def authNull : Nat := 0

/-- `request_lookup`. `authOk` is whether `_authenticate` answers `AUTH_OK`; it is not asked about the
null flavor. The bounds of `rpcvers_t` start the search for the versions of a program. -/
def requestLookup (svcHead : List (Callout H)) (authOk : Bool) (msg : RpcMsg) : Lookup H :=
  if msg.oaFlavor ≠ authNull ∧ authOk = false then .authError
  else matchProgVersion msg.cbProg msg.cbVers svcHead sizeMax 0 false

/-- A message that reaches a service: its credentials are accepted and a callout has its program and
version. -/
def Dispatchable (svcHead : List (Callout H)) (authOk : Bool) (msg : RpcMsg) : Prop :=
  (msg.oaFlavor = authNull ∨ authOk = true) ∧
    ∃ s ∈ svcHead, s.scProg = msg.cbProg ∧ s.scVers = msg.cbVers

theorem matchProgVersion_dispatch_iff (prog vers : Nat) (svcs : List (Callout H)) (lowVers highVers : Nat)
    (progFound : Bool) :
    (∃ h, matchProgVersion prog vers svcs lowVers highVers progFound = .dispatch h) ↔
      ∃ s ∈ svcs, s.scProg = prog ∧ s.scVers = vers := by
  induction svcs generalizing lowVers highVers progFound with
  | nil => cases progFound <;> simp [matchProgVersion]
  | cons s svcs ih =>
      rw [matchProgVersion]
      by_cases hprog : s.scProg = prog
      · by_cases hvers : s.scVers = vers
        · simp [hprog, hvers]
        · rw [if_pos hprog, if_neg hvers, ih]
          simp [hvers]
      · rw [if_neg hprog, ih]
        simp [hprog]

theorem matchProgVersion_ne_authError (prog vers : Nat) (svcs : List (Callout H)) (lowVers highVers : Nat)
    (progFound : Bool) : matchProgVersion prog vers svcs lowVers highVers progFound ≠ .authError := by
  induction svcs generalizing lowVers highVers progFound with
  | nil => cases progFound <;> exact nofun
  | cons s svcs ih =>
      rw [matchProgVersion]
      split
      · split
        · exact nofun
        · exact ih _ _ _
      · exact ih _ _ _

theorem requestLookup_dispatch_iff (svcHead : List (Callout H)) (authOk : Bool) (msg : RpcMsg) :
    (∃ h, requestLookup svcHead authOk msg = .dispatch h) ↔ Dispatchable svcHead authOk msg := by
  unfold requestLookup Dispatchable
  by_cases hauth : msg.oaFlavor ≠ authNull ∧ authOk = false
  · rw [if_pos hauth]
    simp [hauth.1, hauth.2]
  · rw [if_neg hauth, matchProgVersion_dispatch_iff]
    have hok : msg.oaFlavor = authNull ∨ authOk = true := by
      by_contra hno
      rw [not_or] at hno
      exact hauth ⟨hno.1, by simpa using hno.2⟩
    simp [hok]

end RpcMt
